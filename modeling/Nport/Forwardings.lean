import Nport.HttpOpen

/-! The tables of np's Client that say where a tunnel leads, and what the announcements of the
server do to them. A table is a map: a key has one value or none. -/
namespace Forwardings

open Libnp
open HttpOpen (HttpOpened HttpOpenError)
open PortOpen (PortOpened PortOpenError)

inductive HttpCloseError where
  | notRegistered
  deriving DecidableEq, Repr

structure HttpClosed where
  hostname : String
  error : Option HttpCloseError
  deriving DecidableEq

/-- http_forwardings by hostname and port_forwardings by origin. -/
structure Tables where
  http : String → Option Addr
  port : String → Option Addr

def Tables.empty : Tables := ⟨fun _ => none, fun _ => none⟩

inductive NpError where
  | httpOpenError (hostname : String) (error : HttpOpenError)
  | httpHostnameAlreadyRegistered (hostname : String)
  | httpHostnameNotRegistered (hostname : String)
  | portOpenError (addr : Addr) (error : PortOpenError)
  | portOriginAlreadyRegistered (origin : String)
  | portOriginNotRegistered (origin : String)
  /-- the panic of PortProtocol::try_from(protocol).unwrap() -/
  | unknownProtocol (protocol : Int32)
  deriving DecidableEq

def httpRegister (t : Tables) (msg : HttpOpened) : Except NpError Tables :=
  match msg.error with
  | some error => .error (.httpOpenError msg.hostname error)
  | none =>
    match t.http msg.hostname with
    | none =>
      let addr := Addr.fromAddress msg.localAddress
      .ok { t with http := Function.update t.http msg.hostname (some addr) }
    | some _ => .error (.httpHostnameAlreadyRegistered msg.hostname)

/-- The error of the message is not looked at. -/
def httpDeregister (t : Tables) (msg : HttpClosed) : Except NpError Tables :=
  match t.http msg.hostname with
  | some _ => .ok { t with http := Function.update t.http msg.hostname none }
  | none => .error (.httpHostnameNotRegistered msg.hostname)

def portRegister (t : Tables) (msg : PortOpened) : Except NpError Tables :=
  match msg.error with
  | some error => .error (.portOpenError (Addr.fromAddress msg.remoteAddress) error)
  | none =>
    match portOriginFromRaw msg.protocol msg.remoteAddress with
    | none => .error (.unknownProtocol msg.protocol)
    | some origin =>
      match t.port origin with
      | none =>
        let addr := Addr.fromAddress msg.localAddress
        .ok { t with port := Function.update t.port origin (some addr) }
      | some _ => .error (.portOriginAlreadyRegistered origin)

def portConnect (t : Tables) (protocol : Int32) (remoteAddress : Option Address) :
    Except NpError Addr :=
  match portOriginFromRaw protocol remoteAddress with
  | none => .error (.unknownProtocol protocol)
  | some origin =>
    match t.port origin with
    | none => .error (.portOriginNotRegistered origin)
    | some addr => .ok addr

inductive Announcement where
  | httpOpened (msg : HttpOpened)
  | httpClosed (msg : HttpClosed)
  | portOpened (msg : PortOpened)
  deriving DecidableEq

def Tables.register (t : Tables) : Announcement → Except NpError Tables
  | .httpOpened msg => httpRegister t msg
  | .httpClosed msg => httpDeregister t msg
  | .portOpened msg => portRegister t msg

/-- dispatch::message logs an error and leaves the tables as they are. -/
def Tables.apply (t : Tables) (a : Announcement) : Tables :=
  match t.register a with
  | .ok t' => t'
  | .error _ => t

theorem apply_httpOpened_error (t : Tables) {msg : HttpOpened} {error : HttpOpenError}
    (h : msg.error = some error) : t.apply (.httpOpened msg) = t := by
  simp [Tables.apply, Tables.register, httpRegister, h]

theorem apply_httpOpened (t : Tables) {msg : HttpOpened} (h : msg.error = none)
    (fresh : t.http msg.hostname = none) :
    t.apply (.httpOpened msg) =
      { t with http := Function.update t.http msg.hostname
                (some (Addr.fromAddress msg.localAddress)) } := by
  simp [Tables.apply, Tables.register, httpRegister, h, fresh]

theorem apply_httpClosed (t : Tables) (msg : HttpClosed) :
    t.apply (.httpClosed msg) = { t with http := Function.update t.http msg.hostname none } := by
  cases h : t.http msg.hostname with
  | some a => simp [Tables.apply, Tables.register, httpDeregister, h]
  | none =>
    have hsame : Function.update t.http msg.hostname none = t.http := by
      rw [← h, Function.update_eq_self]
    simp [Tables.apply, Tables.register, httpDeregister, h, hsame]

theorem apply_portOpened_error (t : Tables) {msg : PortOpened} {error : PortOpenError}
    (h : msg.error = some error) : t.apply (.portOpened msg) = t := by
  simp [Tables.apply, Tables.register, portRegister, h]

theorem apply_portOpened (t : Tables) {msg : PortOpened} {origin : String}
    (h : msg.error = none) (ho : portOriginFromRaw msg.protocol msg.remoteAddress = some origin)
    (fresh : t.port origin = none) :
    t.apply (.portOpened msg) =
      { t with port := Function.update t.port origin
                (some (Addr.fromAddress msg.localAddress)) } := by
  simp [Tables.apply, Tables.register, portRegister, h, ho, fresh]

theorem apply_portOpened_http (t : Tables) (msg : PortOpened) :
    (t.apply (.portOpened msg)).http = t.http := by
  cases he : msg.error with
  | some error => rw [apply_portOpened_error t he]
  | none =>
    cases ho : portOriginFromRaw msg.protocol msg.remoteAddress with
    | none => simp [Tables.apply, Tables.register, portRegister, he, ho]
    | some origin =>
      cases ht : t.port origin with
      | none => rw [apply_portOpened t he ho ht]
      | some a => simp [Tables.apply, Tables.register, portRegister, he, ho, ht]

theorem apply_httpOpened_port (t : Tables) (msg : HttpOpened) :
    (t.apply (.httpOpened msg)).port = t.port := by
  cases he : msg.error with
  | some error => rw [apply_httpOpened_error t he]
  | none =>
    cases ht : t.http msg.hostname with
    | none => rw [apply_httpOpened t he ht]
    | some a => simp [Tables.apply, Tables.register, httpRegister, he, ht]

theorem port_after_opened (t : Tables) {msg : PortOpened} {origin : String}
    (h : msg.error = none)
    (ho : portOriginFromRaw msg.protocol msg.remoteAddress = some origin) :
    (t.apply (.portOpened msg)).port origin ≠ none := by
  cases ht : t.port origin with
  | none => simp [apply_portOpened t h ho ht]
  | some a => simp [Tables.apply, Tables.register, portRegister, h, ho, ht]

theorem port_kept {t : Tables} (a : Announcement) {origin : String}
    (hopen : t.port origin ≠ none) : (t.apply a).port origin ≠ none := by
  cases a with
  | httpOpened msg => rwa [apply_httpOpened_port]
  | httpClosed msg => simpa [apply_httpClosed] using hopen
  | portOpened msg =>
    cases he : msg.error with
    | some error => simpa [apply_portOpened_error t he] using hopen
    | none =>
      cases ho : portOriginFromRaw msg.protocol msg.remoteAddress with
      | none => simpa [Tables.apply, Tables.register, portRegister, he, ho] using hopen
      | some o =>
        by_cases hoo : origin = o
        · subst hoo
          exact port_after_opened t he ho
        · cases ht : t.port o with
          | none => simpa [apply_portOpened t he ho ht, hoo] using hopen
          | some a => simpa [Tables.apply, Tables.register, portRegister, he, ho, ht] using hopen

/-! What a table holds after an announcement. -/

def Announcement.stands (hostname : String) (before : Bool) : Announcement → Bool
  | .httpOpened msg => before || (decide (msg.hostname = hostname) && msg.error.isNone)
  | .httpClosed msg => before && !decide (msg.hostname = hostname)
  | .portOpened _ => before

theorem apply_http_isSome (t : Tables) (a : Announcement) (hostname : String) :
    ((t.apply a).http hostname).isSome = a.stands hostname (t.http hostname).isSome := by
  cases a with
  | httpOpened msg =>
    cases he : msg.error with
    | some error => simp [Announcement.stands, apply_httpOpened_error t he, he]
    | none =>
      cases ht : t.http msg.hostname with
      | none =>
        by_cases hh : hostname = msg.hostname
        · simp [Announcement.stands, apply_httpOpened t he ht, he, hh]
        · simp [Announcement.stands, apply_httpOpened t he ht, he, hh, Ne.symm hh]
      | some addr =>
        have hsame : t.apply (.httpOpened msg) = t := by
          simp [Tables.apply, Tables.register, httpRegister, he, ht]
        by_cases hh : hostname = msg.hostname
        · simp [Announcement.stands, hsame, he, hh, ht]
        · simp [Announcement.stands, hsame, Ne.symm hh]
  | httpClosed msg =>
    by_cases hh : hostname = msg.hostname
    · simp [Announcement.stands, apply_httpClosed, hh]
    · simp [Announcement.stands, apply_httpClosed, hh, Ne.symm hh]
  | portOpened msg => simp [Announcement.stands, apply_portOpened_http]

theorem http_from {t : Tables} {a : Announcement} {hostname : String} {addr : Addr}
    (h : (t.apply a).http hostname = some addr) :
    t.http hostname = some addr ∨
      ∃ msg, a = .httpOpened msg ∧ msg.hostname = hostname ∧ msg.error = none ∧
        Addr.fromAddress msg.localAddress = addr := by
  cases a with
  | httpOpened msg =>
    cases he : msg.error with
    | some error => exact Or.inl (by rwa [apply_httpOpened_error t he] at h)
    | none =>
      cases ht : t.http msg.hostname with
      | none =>
        rw [apply_httpOpened t he ht] at h
        by_cases hh : hostname = msg.hostname
        · subst hh
          exact Or.inr ⟨msg, rfl, rfl, he, by simpa using h⟩
        · exact Or.inl (by simpa [hh] using h)
      | some old =>
        exact Or.inl (by simpa [Tables.apply, Tables.register, httpRegister, he, ht] using h)
  | httpClosed msg =>
    rw [apply_httpClosed] at h
    by_cases hh : hostname = msg.hostname
    · simp [hh] at h
    · exact Or.inl (by simpa [hh] using h)
  | portOpened msg => exact Or.inl (by rwa [apply_portOpened_http] at h)

theorem port_from {t : Tables} {a : Announcement} {origin : String} {addr : Addr}
    (h : (t.apply a).port origin = some addr) :
    t.port origin = some addr ∨
      ∃ msg, a = .portOpened msg ∧ msg.error = none ∧
        portOriginFromRaw msg.protocol msg.remoteAddress = some origin ∧
        Addr.fromAddress msg.localAddress = addr := by
  cases a with
  | httpOpened msg => exact Or.inl (by rwa [apply_httpOpened_port] at h)
  | httpClosed msg => exact Or.inl (by simpa [apply_httpClosed] using h)
  | portOpened msg =>
    cases he : msg.error with
    | some error => exact Or.inl (by rwa [apply_portOpened_error t he] at h)
    | none =>
      cases ho : portOriginFromRaw msg.protocol msg.remoteAddress with
      | none =>
        exact Or.inl (by simpa [Tables.apply, Tables.register, portRegister, he, ho] using h)
      | some o =>
        cases ht : t.port o with
        | none =>
          rw [apply_portOpened t he ho ht] at h
          by_cases hoo : origin = o
          · subst hoo
            exact Or.inr ⟨msg, rfl, he, ho, by simpa using h⟩
          · exact Or.inl (by simpa [hoo] using h)
        | some old =>
          exact Or.inl (by simpa [Tables.apply, Tables.register, portRegister, he, ho, ht] using h)

end Forwardings
