import Nport.Libnp
import Mathlib.Data.List.Infix

/-! The PortOpen request: validate_open checks the 32-bit port of the message, and
Addr::from_address keeps its low 16 bits for the bind. Lower-casing and the parsing of IP
addresses are parameters: nothing here depends on what they return. -/
namespace PortOpen

open Libnp

structure Hostnames where
  domain : String
  api : String
  tcp : String
  apiHostname : String
  tcpHostname : String
  subdomainBlocklist : List String
  deriving DecidableEq, Repr

def Hostnames.newHostname (domain host : String) : String :=
  if host = "" then domain else host ++ "." ++ domain

def Hostnames.new (toLowercase : String → String) (domain : String) (api tcp : Option String)
    (blocklist : Option (List String)) : Hostnames :=
  let api := toLowercase (api.getD "")
  let tcp := toLowercase (tcp.getD "")
  { domain
    api
    tcp
    apiHostname := newHostname domain api
    tcpHostname := newHostname domain tcp
    subdomainBlocklist := (blocklist.getD []).map toLowercase }

def stripSuffix (s suffix : String) : Option String :=
  if suffix.toList <:+ s.toList then
    some (String.ofList (s.toList.take (s.toList.length - suffix.toList.length)))
  else none

def normalizedClientSubdomain (toLowercase : String → String) (hostnames : Hostnames)
    (subdomain : String) : String :=
  let subdomain := toLowercase subdomain
  (stripSuffix subdomain ("." ++ hostnames.domain)).getD subdomain

inductive PortOpenError where
  | inUse
  | portNotAllowed
  | hostNotAllowed
  deriving DecidableEq, Repr

structure Open where
  protocol : Int32
  remoteAddress : Option Address
  localAddress : Option Address
  deriving DecidableEq

structure PortOpened where
  protocol : Int32
  remoteAddress : Option Address
  localAddress : Option Address
  error : Option PortOpenError
  deriving DecidableEq

def validateOpen (toLowercase : String → String) (hostnames : Hostnames) (message : Open) :
    Except PortOpenError Unit :=
  match message.remoteAddress with
  | none => .ok ()
  | some remoteAddr =>
    if remoteAddr.port > 0 ∧ remoteAddr.port < 1024 then .error .portNotAllowed
    else
      match remoteAddr.host with
      | none => .ok ()
      | some hostname =>
        if normalizedClientSubdomain toLowercase hostnames hostname ≠ hostnames.tcpHostname then
          .error .hostNotAllowed
        else .ok ()

/-- What one PortOpen does: the port TcpListener::bind was called with, the port that went
into open_ports, and the answer. -/
structure Outcome where
  bound : Option UInt16
  opened : Option UInt16
  response : PortOpened
  deriving DecidableEq

/-- port_server::server: binds 0.0.0.0 with the port of the address; the first component is
the port it binds, the second what bind and local_addr return. -/
def server {ε : Type*} (bind : UInt16 → Except ε UInt16) (addr : Addr) :
    UInt16 × Except ε UInt16 :=
  (addr.port, bind addr.port)

def portOpen {ε : Type*} (toLowercase : String → String) (isLoopback : String → Bool)
    (bind : UInt16 → Except ε UInt16) (hostnames : Hostnames) (message : Open) : Outcome :=
  let hostname := hostnames.tcpHostname
  let answer (port : UInt16) (error : Option PortOpenError) : PortOpened :=
    { protocol := message.protocol
      remoteAddress := some (Addr.fromHostAndPort isLoopback hostname port).toAddress
      localAddress := message.localAddress
      error }
  let remoteAddress := Addr.fromAddress message.remoteAddress
  match validateOpen toLowercase hostnames message with
  | .error error => ⟨none, none, answer remoteAddress.port (some error)⟩
  | .ok () =>
    match server bind remoteAddress with
    | (bound, .ok port) => ⟨some bound, some port, answer port none⟩
    | (bound, .error _) => ⟨some bound, none, answer remoteAddress.port (some .inUse)⟩

def Privileged (port : ℕ) : Prop := 1 ≤ port ∧ port ≤ 1023

/-- The host of the address is absent or the one for TCP forwardings. -/
def HostAllowed (toLowercase : String → String) (hostnames : Hostnames) (a : Address) : Prop :=
  ∀ host, a.host = some host →
    normalizedClientSubdomain toLowercase hostnames host = hostnames.tcpHostname

variable {ε : Type*} {toLowercase : String → String} {isLoopback : String → Bool}
  {bind : UInt16 → Except ε UInt16} {hostnames : Hostnames} {message : Open}

theorem validateOpen_ok_iff : validateOpen toLowercase hostnames message = .ok () ↔
    ∀ a, message.remoteAddress = some a →
      ¬ Privileged a.port.toNat ∧ HostAllowed toLowercase hostnames a := by
  have range (p : UInt32) : (p > 0 ∧ p < 1024) ↔ Privileged p.toNat := by
    rw [gt_iff_lt, UInt32.lt_iff_toNat_lt, UInt32.lt_iff_toNat_lt]
    simp only [Privileged, UInt32.toNat_zero, UInt32.reduceToNat]
    omega
  cases hr : message.remoteAddress with
  | none => simp [validateOpen, hr]
  | some a =>
    by_cases hp : Privileged a.port.toNat
    · have hp' := (range a.port).mpr hp
      simp [validateOpen, hr, hp', hp]
    · have hp' := mt (range a.port).mp hp
      cases hh : a.host with
      | none => simp [validateOpen, hr, hp', hp, hh, HostAllowed]
      | some host => simp [validateOpen, hr, hp', hp, hh, HostAllowed]

theorem bound_eq_some_iff {port : UInt16} :
    (portOpen toLowercase isLoopback bind hostnames message).bound = some port ↔
      validateOpen toLowercase hostnames message = .ok () ∧
        (Addr.fromAddress message.remoteAddress).port = port := by
  unfold portOpen
  cases validateOpen toLowercase hostnames message with
  | error e => simp
  | ok =>
    simp only [server]
    cases bind (Addr.fromAddress message.remoteAddress).port <;> simp

theorem bound_of_address {a : Address} {port : UInt16} (ha : message.remoteAddress = some a) :
    (portOpen toLowercase isLoopback bind hostnames message).bound = some port ↔
      ¬ Privileged a.port.toNat ∧ HostAllowed toLowercase hostnames a ∧
        a.port.toNat % 65536 = port.toNat := by
  rw [bound_eq_some_iff, validateOpen_ok_iff, ha, ← Addr.fromAddress_port a]
  constructor
  · rintro ⟨hok, rfl⟩
    obtain ⟨hp, hh⟩ := hok a rfl
    exact ⟨hp, hh, rfl⟩
  · rintro ⟨hp, hh, hport⟩
    refine ⟨?_, UInt16.toNat_inj.mp hport⟩
    rintro b hb
    obtain rfl : a = b := Option.some.inj hb
    exact ⟨hp, hh⟩

theorem bound_without_address {port : UInt16} (ha : message.remoteAddress = none)
    (hb : (portOpen toLowercase isLoopback bind hostnames message).bound = some port) :
    port = 0 := by
  have h := (bound_eq_some_iff.mp hb).2
  rw [ha] at h
  exact h.symm

/-- No privileged port is bound exactly when no allowed request has a port number from
65536 on whose low 16 bits are a privileged port, and the port that is checked is the port
that is bound exactly when no allowed request has a port number from 65536 on at all. -/
theorem checked_port_is_bound_iff (toLowercase : String → String) (isLoopback : String → Bool)
    (bind : UInt16 → Except ε UInt16) (hostnames : Hostnames) (message : Open) :
    ((∀ port, (portOpen toLowercase isLoopback bind hostnames message).bound = some port →
        ¬ Privileged port.toNat) ↔
      ∀ a, message.remoteAddress = some a → HostAllowed toLowercase hostnames a →
        65536 ≤ a.port.toNat → ¬ Privileged (a.port.toNat % 65536)) ∧
    ((∀ port a, (portOpen toLowercase isLoopback bind hostnames message).bound = some port →
        message.remoteAddress = some a → port.toNat = a.port.toNat) ↔
      ∀ a, message.remoteAddress = some a → HostAllowed toLowercase hostnames a →
        a.port.toNat < 65536) := by
  have low (n : ℕ) (hn : n < 65536) : n % 65536 = n := Nat.mod_eq_of_lt hn
  have wraps {a : Address} (ha : message.remoteAddress = some a)
      (hh : HostAllowed toLowercase hostnames a) (hbig : 65536 ≤ a.port.toNat) :
      (portOpen toLowercase isLoopback bind hostnames message).bound =
        some (Addr.fromAddress (some a)).port := by
    rw [bound_of_address ha, Addr.fromAddress_port]
    refine ⟨?_, hh, rfl⟩
    intro hp
    have hle := hp.2
    omega
  refine ⟨⟨?_, ?_⟩, ⟨?_, ?_⟩⟩
  · intro hnone a ha hh hbig
    rw [← Addr.fromAddress_port]
    exact hnone _ (wraps ha hh hbig)
  · intro hcond port hb hp
    cases ha : message.remoteAddress with
    | none =>
      rw [bound_without_address ha hb] at hp
      exact absurd hp.1 (by decide)
    | some a =>
      obtain ⟨hn, hh, hport⟩ := (bound_of_address ha).mp hb
      by_cases hbig : 65536 ≤ a.port.toNat
      · exact hcond a ha hh hbig (hport ▸ hp)
      · rw [low _ (by omega)] at hport
        exact hn (hport ▸ hp)
  · intro hsame a ha hh
    by_contra hbig
    have hport := hsame _ a (wraps ha hh (by omega)) ha
    have hlt := UInt16.toNat_lt (Addr.fromAddress (some a)).port
    omega
  · intro hcond port a hb ha
    obtain ⟨_, hh, hport⟩ := (bound_of_address ha).mp hb
    rw [low _ (hcond a ha hh)] at hport
    exact hport.symm

def opens65616 : Open := ⟨0, some ⟨none, 65616⟩, some ⟨none, 11235⟩⟩

theorem port_65616_binds_80 : ∃ port,
    (portOpen String.toLower (fun _ => false) (fun port => (.ok port : Except Unit UInt16))
      (Hostnames.new String.toLower "localhost" none (some "tcp") none) opens65616).bound =
        some port ∧ Privileged port.toNat :=
  ⟨80, rfl, by decide, by decide⟩

end PortOpen
