import Nport.PortTask
import Nport.Separated

/-! The certificate store: the map of certificates in memory, when one of them is due for
renewal, and which one a TLS handshake gets. Parsing a certificate and loading a private key
are parameters; a moment is a number of nanoseconds. -/
namespace CertStore

open PortTask (Bytes)
open Separated

abbrev Time := ℤ

/-- What is used of x509_parser and rustls. A parsed certificate leaves less than was there. -/
structure CertLib (K : Type*) where
  /-- X509Certificate::from_der: the bytes behind the certificate and its not_after. -/
  fromDer : Bytes → Except String (Bytes × Time)
  anySupportedType : Bytes → Option K
  fromDer_suffix : ∀ {der extra notAfter}, fromDer der = .ok (extra, notAfter) →
    extra <:+ der ∧ extra.length < der.length

structure CertifiedKey (K : Type*) where
  cert : Bytes
  key : K
  deriving DecidableEq

structure Store (K : Type*) where
  certs : String → Option (CertifiedKey K)
  domain : String

def day : Time := 24 * 3600 * 1000000000

def minimumCertRenewDuration : Time := 30 * day

/-- Date::MAX.midnight(), at the start of the last day of the year 9999 -/
def maxDate : Time := 253402214400 * 1000000000

section Functions

variable {K : Type*}

def certExpirationFrom (lib : CertLib K) (rem : Bytes) (expiration : Time) :
    Except String Time :=
  match _h : lib.fromDer rem with
  | .error err => .error err
  | .ok (extra, notAfter) =>
    let expiration := if notAfter < expiration then notAfter else expiration
    if extra = [] then .ok expiration else certExpirationFrom lib extra expiration
termination_by rem.length
decreasing_by exact (lib.fromDer_suffix _h).2

def certExpiration (lib : CertLib K) (der : Bytes) : Except String Time :=
  certExpirationFrom lib der maxDate

def Store.rootDomain (store : Store K) : String := store.domain

def Store.wildcardDomain (store : Store K) : String := "*." ++ store.domain

/-- none is the panic of any_supported_type(..).unwrap(). -/
def Store.add (lib : CertLib K) (store : Store K) (domain : String)
    (privateKeyDer certificateDer : Bytes) : Option (Store K) :=
  (lib.anySupportedType privateKeyDer).map fun key =>
    { store with certs := Function.update store.certs domain (some ⟨certificateDer, key⟩) }

def Store.shouldRenewCert (lib : CertLib K) (store : Store K) (now : Time) (domain : String) :
    Bool :=
  match store.certs domain with
  | some cert =>
    match certExpiration lib cert.cert with
    | .ok expiration => expiration < now + minimumCertRenewDuration
    | .error _ => true
  | none => true

def Store.shouldRenew (lib : CertLib K) (store : Store K) (now : Time) : Bool :=
  store.shouldRenewCert lib now store.rootDomain ||
    store.shouldRenewCert lib now store.wildcardDomain

def topLevel (serverName : String) : String :=
  "*." ++ String.ofList (['.'].intercalate ((serverName.toList.splitOn '.').drop 1))

/-- resolve; sni is the server name of the client's hello, if it has one. -/
def Store.resolve (store : Store K) (sni : Option String) : Option (CertifiedKey K) :=
  let serverName := sni.getD store.domain
  ((store.certs (topLevel serverName)).or (store.certs serverName)).or (store.certs store.domain)

end Functions

/-! Which certificate a handshake gets. -/

def IsDomain (s : String) : Prop := Joined '.' (fun label => label ≠ [] ∧ '.' ∉ label) s.toList

def IsKey (k : String) : Prop := IsDomain k ∨ ∃ domain, IsDomain domain ∧ k = "*." ++ domain

/-- The key has a star where the name has its first label. -/
def Covers (k serverName : String) : Prop :=
  ∃ label rest : String, label.toList ≠ [] ∧ '.' ∉ label.toList ∧
    serverName = label ++ "." ++ rest ∧ k = "*." ++ rest

instance (s : String) : Decidable (IsDomain s) :=
  decidable_of_iff _ (joined_iff fun _ h => h.2).symm

theorem topLevel_append {label rest : String} (hdot : '.' ∉ label.toList) :
    topLevel (label ++ "." ++ rest) = "*." ++ rest := by
  have hname : (label ++ "." ++ rest).toList = label.toList ++ '.' :: rest.toList := by simp
  rw [topLevel, hname, List.splitOn_append_cons_self_of_not_mem hdot, List.drop_one,
    List.tail_cons, List.intercalate_splitOn, String.ofList_toList]

theorem topLevel_label {serverName : String} (hdot : '.' ∉ serverName.toList) :
    topLevel serverName = "*." := by
  rw [topLevel, List.splitOn_eq_singleton hdot]
  rfl

theorem not_isKey_star : ¬ IsKey "*." := by
  have hfield {s : String} (hs : [] ∈ s.toList.splitOn '.') : ¬ IsDomain s := by
    intro h
    exact ((joined_iff fun _ hp => hp.2).mp h [] hs).1 rfl
  rintro (h | ⟨domain, h, heq⟩)
  · exact hfield (by decide) h
  · obtain rfl : domain = "" := by
      have hnil := congrArg String.toList heq
      simpa using hnil
    exact hfield (by decide) h

theorem IsDomain.split {s : String} (h : IsDomain s) : '.' ∉ s.toList ∨
    ∃ label rest : String, label.toList ≠ [] ∧ '.' ∉ label.toList ∧ s = label ++ "." ++ rest := by
  unfold IsDomain at h
  generalize hl : s.toList = l at h
  cases h with
  | one hp => exact Or.inl hp.2
  | @cons piece rest hp _ =>
    refine Or.inr ⟨String.ofList piece, String.ofList rest, by simpa using hp.1,
      by simpa using hp.2, ?_⟩
    rw [← String.toList_inj, hl]
    simp

theorem covers_iff {k serverName : String} (hname : IsDomain serverName) (hk : IsKey k) :
    Covers k serverName ↔ k = topLevel serverName := by
  constructor
  · rintro ⟨label, rest, _, hdot, rfl, rfl⟩
    exact (topLevel_append hdot).symm
  · rintro rfl
    rcases hname.split with hdot | ⟨label, rest, hne, hdot, rfl⟩
    · rw [topLevel_label hdot] at hk
      exact absurd hk not_isKey_star
    · exact ⟨label, rest, hne, hdot, rfl, topLevel_append hdot⟩

/-- A handshake for a name gets the certificate whose key covers it, or else its own, or else
that of the default domain; one without a name is a handshake for the default domain. -/
theorem resolve_serves {K : Type*} (store : Store K)
    (hkeys : ∀ k cert, store.certs k = some cert → IsKey k) (serverName : String)
    (hname : IsDomain serverName) :
    (∀ k cert, Covers k serverName → store.certs k = some cert →
      store.resolve (some serverName) = some cert) ∧
    ((∀ k, Covers k serverName → store.certs k = none) →
      (∀ cert, store.certs serverName = some cert →
        store.resolve (some serverName) = some cert) ∧
      (store.certs serverName = none →
        store.resolve (some serverName) = store.certs store.domain)) ∧
    store.resolve none = store.resolve (some store.domain) := by
  refine ⟨?_, ?_, rfl⟩
  · intro k cert hcovers hcert
    obtain rfl := (covers_iff hname (hkeys k cert hcert)).mp hcovers
    simp [Store.resolve, hcert]
  · intro hnone
    have htop : store.certs (topLevel serverName) = none := by
      by_contra hsome
      obtain ⟨cert, hcert⟩ := Option.ne_none_iff_exists'.mp hsome
      exact hsome (hnone _ ((covers_iff hname (hkeys _ cert hcert)).mpr rfl))
    constructor
    · intro cert hcert
      simp [Store.resolve, htop, hcert]
    · intro hcert
      simp [Store.resolve, htop, hcert]

def renewed : Store Unit :=
  ⟨Function.update (Function.update (fun _ => none) "nport.io" (some ⟨[1], ()⟩)) "*.nport.io"
    (some ⟨[2], ()⟩), "nport.io"⟩

theorem renewed_keys : ∀ k cert, renewed.certs k = some cert → IsKey k := by
  intro k cert h
  by_cases hstar : k = "*.nport.io"
  · exact Or.inr ⟨"nport.io", by decide, hstar⟩
  · by_cases hroot : k = "nport.io"
    · rw [hroot]
      exact Or.inl (by decide)
    · simp [renewed, hstar, hroot] at h

theorem resolve_serves_subdomain :
    renewed.resolve (some "something.nport.io") = some ⟨[2], ()⟩ :=
  (resolve_serves renewed renewed_keys "something.nport.io" (by decide)).1 "*.nport.io" ⟨[2], ()⟩
    ⟨"something", "nport.io", by decide, by decide, rfl, rfl⟩ rfl

end CertStore
