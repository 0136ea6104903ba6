import Nport.Forwardings
import Nport.HeaderSurvival

/-! dispatch::message of np for every message the decoder of the server's payloads can give:
enumerations come as the raw numbers that were on the wire. Each kind of message has one
operation of the Client; what they call outside np is a parameter. -/
namespace Dispatch

open Libnp
open Multimap
open PortTask (Bytes PortMessage)
open Forwardings (Tables Announcement)
open HttpOpen (HttpOpenError)
open PortOpen (PortOpenError)
open HttpForward (HttpLib HttpResponse HttpScheme)

/-! messages::server -/

structure HttpOpened where
  hostname : String
  localAddress : Option Address
  error : Option Int32
  deriving DecidableEq

structure HttpClosed where
  hostname : String
  error : Option Int32
  deriving DecidableEq

structure HttpRequest where
  uuid : String
  hostname : String
  httpClientAddress : Option Address
  scheme : Int32
  method : String
  uri : String
  headers : Unique String Bytes
  body : Option Bytes

structure PortOpened where
  protocol : Int32
  remoteAddress : Option Address
  localAddress : Option Address
  error : Option Int32
  deriving DecidableEq

structure PortConnect where
  uuid : String
  protocol : Int32
  remoteAddress : Option Address
  fromAddress : Option Address
  deriving DecidableEq

structure PortReceive where
  uuid : String
  data : Bytes
  deriving DecidableEq

structure PortClose where
  uuid : String
  deriving DecidableEq

structure Print where
  message : String
  level : Int32
  deriving DecidableEq

inductive Message where
  | httpOpened (msg : HttpOpened)
  | httpRequest (req : HttpRequest)
  | httpClosed (msg : HttpClosed)
  | portOpened (msg : PortOpened)
  | portConnect (msg : PortConnect)
  | portReceive (msg : PortReceive)
  | portClose (msg : PortClose)
  | print (msg : Print)

/-- The scheme as prost gives it to a reader; np reads it nowhere. -/
def HttpRequest.known (req : HttpRequest) : HttpForward.HttpRequest :=
  { uuid := req.uuid, hostname := req.hostname, httpClientAddress := req.httpClientAddress
    scheme := if req.scheme = 1 then .https else .http
    method := req.method, uri := req.uri, headers := req.headers, body := req.body }

inductive PrintLevel where
  | trace
  | debug
  | info
  | warning
  | error
  deriving DecidableEq, Repr

def PrintLevel.tryFrom (level : Int32) : Option PrintLevel :=
  if level = 0 then some .trace
  else if level = 1 then some .debug
  else if level = 2 then some .info
  else if level = 3 then some .warning
  else if level = 4 then some .error
  else none

/-- np's Error, without what only connect and recv come upon -/
inductive Error where
  | httpOpenError (hostname : String) (error : Int32)
  | httpHostnameAlreadyRegistered (hostname : String)
  | httpHostnameNotRegistered (hostname : String)
  | portOpenError (addr : Addr) (error : Int32)
  | portOriginAlreadyRegistered (origin : String)
  | portOriginNotRegistered (origin : String)
  | portIDAlreadyRegistered (uuid : String)
  | portIDNotRegistered (uuid : String)
  | disconnected
  | tungstenite (error : String)
  | io (error : String)
  deriving DecidableEq

def httpOpenErrorMessage (error : Int32) : String :=
  if error = 0 then "hostname is already in use"
  else if error = 1 then "hostname is not valid"
  else if error = 2 then "hostname is not allowed"
  else "unknown HttpOpenError " ++ toString error

def portOpenErrorMessage (error : Int32) : String :=
  if error = 0 then "host/port is already in use"
  else if error = 1 then "port is not allowed"
  else if error = 2 then "host is not allowed"
  else "unknown PortOpenError " ++ toString error

def Error.display : Error → String
  | .httpOpenError hostname error =>
    "could not forward HTTP hostname " ++ hostname ++ ": " ++ httpOpenErrorMessage error
  | .httpHostnameAlreadyRegistered hostname =>
    "HTTP hostname " ++ hostname ++ " is already registered"
  | .httpHostnameNotRegistered hostname => "HTTP hostname " ++ hostname ++ " not registered"
  | .portOpenError addr error =>
    "Could not forward port " ++ addr.display ++ ": " ++ portOpenErrorMessage error
  | .portOriginAlreadyRegistered origin => "Port origin " ++ origin ++ " already registered"
  | .portOriginNotRegistered origin => "Port origin " ++ origin ++ " not registered"
  | .portIDAlreadyRegistered uuid => "Port ID " ++ uuid ++ " already registered"
  | .portIDNotRegistered uuid => "Port ID " ++ uuid ++ " not registered"
  | .disconnected => "client got disconnected"
  | .tungstenite error => "websocket error " ++ error
  | .io error => "IO error: " ++ error

inductive Outgoing where
  | httpResponse (response : HttpResponse)
  | portConnected (uuid : String) (error : Option String)

/-- The fields of Client that messages read and change; of a writer only that it is there. -/
structure Client where
  tables : Tables
  portWriters : String → Bool
  connected : Bool

/-- What is outside np: the HTTP crates, TcpStream::connect, the tasks behind the writers and
the websocket. hasRoom is false where HeaderMap::insert panics for its size. -/
structure Outside (N V M : Type*) where
  lib : HttpLib N V M
  hasRoom : Grouped N V → N → Bool
  fetch : HttpForward.Request N V M → Except String (HttpForward.Response N V)
  connect : String → Except String Unit
  accepts : String → PortMessage → Bool
  transmit : Outgoing → Except String Unit

variable {N V M : Type*} [DecidableEq N]

def Client.send (out : Outside N V M) (c : Client) (msg : Outgoing) : Except Error Unit :=
  if c.connected then
    match out.transmit msg with
    | .ok () => .ok ()
    | .error e => .error (.tungstenite e)
  else .error .disconnected

def httpRegister (t : Tables) (msg : HttpOpened) : Except Error Tables :=
  match msg.error with
  | some error => .error (.httpOpenError msg.hostname error)
  | none =>
    match t.http msg.hostname with
    | none =>
      let addr := Addr.fromAddress msg.localAddress
      .ok { t with http := Function.update t.http msg.hostname (some addr) }
    | some _ => .error (.httpHostnameAlreadyRegistered msg.hostname)

def httpDeregister (t : Tables) (msg : HttpClosed) : Except Error Tables :=
  match t.http msg.hostname with
  | some _ => .ok { t with http := Function.update t.http msg.hostname none }
  | none => .error (.httpHostnameNotRegistered msg.hostname)

/-- none is the panic of port_origin_from_raw. -/
def portRegister (t : Tables) (msg : PortOpened) : Option (Except Error Tables) :=
  match msg.error with
  | some error => some (.error (.portOpenError (Addr.fromAddress msg.remoteAddress) error))
  | none =>
    match portOriginFromRaw msg.protocol msg.remoteAddress with
    | none => none
    | some origin =>
      match t.port origin with
      | none =>
        let addr := Addr.fromAddress msg.localAddress
        some (.ok { t with port := Function.update t.port origin (some addr) })
      | some _ => some (.error (.portOriginAlreadyRegistered origin))

/-- client::port::start; the writer stays with the Client when the task is spawned. -/
def start (out : Outside N V M) (c : Client) (uuid : String) (addr : Addr) :
    Client × Except Error Unit :=
  match out.connect addr.display with
  | .error e => (c, .error (.io e))
  | .ok () =>
    if c.portWriters uuid then (c, .error (.portIDAlreadyRegistered uuid))
    else ({ c with portWriters := Function.update c.portWriters uuid true }, .ok ())

/-- Client::port_connect with port::start as its continuation. -/
def portConnect (out : Outside N V M) (c : Client) (msg : PortConnect) :
    Option (Client × Except Error Unit) :=
  match portOriginFromRaw msg.protocol msg.remoteAddress with
  | none => none
  | some origin =>
    match c.tables.port origin with
    | none => some (c, .error (.portOriginNotRegistered origin))
    | some localAddr => some (start out c msg.uuid localAddr)

def portMessage (out : Outside N V M) (c : Client) (uuid : String) (msg : PortMessage) :
    Except Error Unit :=
  if c.portWriters uuid && out.accepts uuid msg then .ok () else .error (.portIDNotRegistered uuid)

/-- The loop over req.headers meets a full HeaderMap before it meets an invalid header. -/
def insertPanics (out : Outside N V M) : List (String × Bytes) → Grouped N V → Bool
  | [], _ => false
  | (key, value) :: rest, headers =>
    match out.lib.nameFromStr key, out.lib.valueFromBytes value with
    | .ok name, .ok value =>
      !out.hasRoom headers name || insertPanics out rest (headers.insert name value)
    | _, _ => false

/-- send_request gets to its headers, and they do not fit. -/
def requestPanics (out : Outside N V M) (t : Tables) (req : HttpRequest) : Bool :=
  match t.http req.hostname with
  | none => false
  | some addr =>
    let uri := "http://" ++ addr.host.getD "127.0.0.1" ++ ":" ++ toString addr.port ++ req.uri
    match out.lib.methodFromBytes req.method, out.lib.checkRequest uri with
    | .ok _, .ok () => insertPanics out (req.headers.entries.map fun e => (e.1, e.2)) .empty
    | _, _ => false

/-- What a call of dispatch::message does and returns. -/
structure Outcome where
  client : Client
  /-- what client.send was called with -/
  sent : Option Outgoing
  /-- an error written to the log -/
  logged : Option Error
  /-- a message of the server written to the log -/
  printed : Option (PrintLevel × String)
  result : Except Error Unit

/-- A call that neither answers nor prints: an error of its operation is logged. -/
def quiet (c : Client) (result : Except Error Client) : Outcome :=
  match result with
  | .ok client => ⟨client, none, none, none, .ok ()⟩
  | .error e => ⟨c, none, some e, none, .ok ()⟩

def request (out : Outside N V M) (c : Client) (req : HttpRequest) : Option Outcome :=
  if requestPanics out c.tables req then none
  else
    let response := Outgoing.httpResponse
      (HttpForward.request out.lib c.tables.http out.fetch req.known)
    some ⟨c, some response, none, none, c.send out response⟩

def connect (out : Outside N V M) (c : Client) (msg : PortConnect) : Option Outcome :=
  (portConnect out c msg).map fun (client, result) =>
    let error := match result with
      | .ok () => none
      | .error e => some e.display
    let answer := Outgoing.portConnected msg.uuid error
    let logged := match client.send out answer with
      | .ok () => none
      | .error e => some e
    ⟨client, some answer, logged, none, .ok ()⟩

/-- dispatch::message; none is a panic. -/
def message (out : Outside N V M) (c : Client) : Message → Option Outcome
  | .httpOpened msg =>
    some (quiet c ((httpRegister c.tables msg).map fun tables => { c with tables }))
  | .httpRequest req => request out c req
  | .httpClosed msg =>
    some (quiet c ((httpDeregister c.tables msg).map fun tables => { c with tables }))
  | .portOpened msg =>
    (portRegister c.tables msg).map fun result =>
      quiet c (result.map fun tables => { c with tables })
  | .portConnect msg => connect out c msg
  | .portReceive msg =>
    some (quiet c ((portMessage out c msg.uuid (.data msg.data)).map fun () => c))
  | .portClose msg => some (quiet c ((portMessage out c msg.uuid .close).map fun () => c))
  | .print msg =>
    some ⟨c, none, none, some ((PrintLevel.tryFrom msg.level).getD .info, msg.message), .ok ()⟩

def httpOpenErrorNumber : HttpOpenError → Int32
  | .inUse => 0
  | .invalid => 1
  | .disallowed => 2

def portOpenErrorNumber : PortOpenError → Int32
  | .inUse => 0
  | .portNotAllowed => 1
  | .hostNotAllowed => 2

def wire : Announcement → Message
  | .httpOpened msg =>
    .httpOpened ⟨msg.hostname, msg.localAddress, msg.error.map httpOpenErrorNumber⟩
  | .httpClosed msg => .httpClosed ⟨msg.hostname, msg.error.map fun _ => 0⟩
  | .portOpened msg =>
    .portOpened ⟨msg.protocol, msg.remoteAddress, msg.localAddress,
      msg.error.map portOpenErrorNumber⟩

theorem quiet_tables (c : Client) (result : Except Error Tables) :
    (quiet c (result.map fun tables => { c with tables })).client.tables =
      match result with
      | .ok tables => tables
      | .error _ => c.tables := by
  cases result <;> rfl

theorem message_wire {out : Outside N V M} {c : Client} {a : Announcement} {o : Outcome}
    (h : message out c (wire a) = some o) : o.client.tables = c.tables.apply a := by
  cases a with
  | httpOpened msg =>
    obtain rfl := Option.some.inj h
    rw [quiet_tables]
    cases he : msg.error with
    | some error => rw [Forwardings.apply_httpOpened_error _ he]; simp [httpRegister]
    | none =>
      cases ht : c.tables.http msg.hostname with
      | none => rw [Forwardings.apply_httpOpened _ he ht]; simp [httpRegister, ht]
      | some addr =>
        simp [httpRegister, he, ht, Tables.apply, Tables.register, Forwardings.httpRegister]
  | httpClosed msg =>
    obtain rfl := Option.some.inj h
    rw [quiet_tables]
    cases ht : c.tables.http msg.hostname with
    | some addr => rw [Forwardings.apply_httpClosed]; simp [httpDeregister, ht]
    | none =>
      simp [httpDeregister, ht, Tables.apply, Tables.register, Forwardings.httpDeregister]
  | portOpened msg =>
    obtain ⟨result, hr, rfl⟩ := Option.map_eq_some_iff.mp h
    rw [quiet_tables]
    cases he : msg.error with
    | some error =>
      rw [Forwardings.apply_portOpened_error _ he]
      obtain rfl : Except.error _ = result := by simpa [portRegister, he] using hr
      rfl
    | none =>
      cases ho : portOriginFromRaw msg.protocol msg.remoteAddress with
      | none => simp [portRegister, he, ho] at hr
      | some origin =>
        cases ht : c.tables.port origin with
        | none =>
          rw [Forwardings.apply_portOpened _ he ho ht]
          obtain rfl : Except.ok _ = result := by simpa [portRegister, he, ho, ht] using hr
          rfl
        | some addr =>
          obtain rfl : Except.error _ = result := by simpa [portRegister, he, ho, ht] using hr
          simp [Tables.apply, Tables.register, Forwardings.portRegister, he, ho, ht]

end Dispatch
