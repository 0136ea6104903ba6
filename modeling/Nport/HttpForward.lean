import Nport.Libnp
import Nport.Multimap
import Nport.PortTask

/-! One HTTP request through the tunnel: enqueue_request in the server, send_request in np,
and forward in the server again. The crates http, hyper and axum are parameters, with what
is relied on: that parsing undoes the conversion of a header name or value to text. -/
namespace HttpForward

open Multimap
open Libnp
open PortTask (Bytes)

/-- What is used of http and hyper: N are header names, V header values, M methods. -/
structure HttpLib (N V M : Type*) where
  asStr : N → String
  nameFromStr : String → Except String N
  asBytes : V → Bytes
  valueFromBytes : Bytes → Except String V
  methodFromBytes : String → Except String M
  methodToString : M → String
  checkRequest : (uri : String) → Except String Unit
  fromUtf8Lossy : Bytes → String
  nameFromStr_asStr : ∀ n, nameFromStr (asStr n) = .ok n
  valueFromBytes_asBytes : ∀ v, valueFromBytes (asBytes v) = .ok v

inductive HttpScheme where
  | http
  | https
  deriving DecidableEq, Repr

structure HttpRequest where
  uuid : String
  hostname : String
  httpClientAddress : Option Address
  scheme : HttpScheme
  method : String
  uri : String
  headers : Unique String Bytes
  body : Option Bytes

/-- messages::client::http_response_error::Error -/
inductive HttpError where
  | forwardingNotRegistered (hostname : String)
  | invalidMethod (method error : String)
  | invalidHeaderName (headerName error : String)
  | invalidHeaderValue (headerName headerValue error : String)
  | creatingRequest (error : String)
  | fetchingResponse (error : String)
  | readingResponse (error : String)

structure HttpResponseData where
  headers : Unique String Bytes
  statusCode : UInt32
  body : Bytes

inductive Payload where
  | error (error : Option HttpError)
  | data (data : HttpResponseData)

structure HttpResponse where
  uuid : String
  payload : Option Payload

variable {N V M : Type*} [DecidableEq N]

/-- The request hyper sends to the local service. -/
structure Request (N V M : Type*) where
  uri : String
  method : M
  headers : Grouped N V
  body : Bytes

/-- A response with the result of reading its body. -/
structure Response (N V : Type*) where
  status : UInt16
  headers : Grouped N V
  body : Except String Bytes

section Server

/-- Names the values that HeaderMap::into_iter leaves without a name; none is the panic of
previous_name.unwrap() when there is no name before. -/
def resolveNames (previousName : Option N) : List (Option N × V) → Option (List (N × V))
  | [] => some []
  | (some name, value) :: rest =>
    (resolveNames (some name) rest).map fun l => (name, value) :: l
  | (none, value) :: rest =>
    match previousName with
    | some name => (resolveNames previousName rest).map fun l => (name, value) :: l
    | none => none

def encode (lib : HttpLib N V M) (header : N × V) : String × Bytes :=
  (lib.asStr header.1, lib.asBytes header.2)

/-- The message of enqueue_request for a drawn uuid. -/
def enqueueRequest (lib : HttpLib N V M) (isLoopback : String → Bool) (viaTls : Bool)
    (uuid hostname : String) (addr : String × UInt16) (method : M) (originalUri : String)
    (headers : Grouped N V) (body : Bytes) : Option HttpRequest :=
  (resolveNames none headers.intoIter).map fun named =>
    { uuid
      hostname
      httpClientAddress := some (Addr.fromHostAndPort isLoopback addr.1 addr.2).toAddress
      scheme := if viaTls then .http else .https
      method := lib.methodToString method
      uri := originalUri
      headers := collect (named.map (encode lib))
      body := some body }

def shouldSkipHeader (header : String) : Bool := header = "transfer-encoding"

/-- A header of the client's answer; invalid ones are skipped with a warning. -/
def responseHeader (lib : HttpLib N V M) (header : String × Bytes) : Option (N × V) :=
  if shouldSkipHeader header.1 then none
  else
    match lib.nameFromStr header.1, lib.valueFromBytes header.2 with
    | .ok name, .ok value => some (name, value)
    | _, _ => none

/-- The response of forward for an answer with data: the headers go over those that a body
of bytes brings with it. none is the panic of StatusCode::from_u16. -/
def forwardData (lib : HttpLib N V M) (bodyHeaders : Grouped N V) (data : HttpResponseData) :
    Option (Response N V) :=
  let valid := (data.headers.entries.map fun e => (e.1, e.2)).filterMap (responseHeader lib)
  let headerMap : Grouped N V := valid.foldl (fun m h => m.append h.1 h.2) .empty
  let status := data.statusCode.toUInt16
  if 100 ≤ status ∧ status < 1000 then
    some ⟨status, bodyHeaders.extend none headerMap.intoIter, .ok data.body⟩
  else none

end Server

section Np

/-- The loop over req.headers: a name that was there before is replaced. -/
def insertHeaders (lib : HttpLib N V M) :
    List (String × Bytes) → Grouped N V → Except HttpError (Grouped N V)
  | [], headers => .ok headers
  | (key, value) :: rest, headers =>
    match lib.nameFromStr key with
    | .error e => .error (.invalidHeaderName key e)
    | .ok name =>
      match lib.valueFromBytes value with
      | .error e => .error (.invalidHeaderValue key (lib.fromUtf8Lossy value) e)
      | .ok value => insertHeaders lib rest (headers.insert name value)

/-- The first half of send_request: the request for the local service. -/
def localRequest (lib : HttpLib N V M) (httpPort : String → Option Addr) (req : HttpRequest) :
    Except HttpError (Request N V M) :=
  match httpPort req.hostname with
  | none => .error (.forwardingNotRegistered req.hostname)
  | some addr =>
    let uri := "http://" ++ addr.host.getD "127.0.0.1" ++ ":" ++ toString addr.port ++ req.uri
    match lib.methodFromBytes req.method with
    | .error e => .error (.invalidMethod req.method e)
    | .ok method =>
      match lib.checkRequest uri with
      | .error e => .error (.creatingRequest e)
      | .ok () =>
        (insertHeaders lib (req.headers.entries.map fun e => (e.1, e.2)) .empty).map
          fun headers => ⟨uri, method, headers, req.body.getD []⟩

/-- The second half: what the local service answered, as a message. -/
def responseData (lib : HttpLib N V M) (response : Response N V) :
    Except HttpError HttpResponseData :=
  match response.body with
  | .error e => .error (.readingResponse e)
  | .ok body => .ok
    { headers := collect (response.headers.iter.map (encode lib))
      statusCode := response.status.toUInt32
      body }

def sendRequest (lib : HttpLib N V M) (httpPort : String → Option Addr)
    (fetch : Request N V M → Except String (Response N V)) (req : HttpRequest) :
    Except HttpError HttpResponseData :=
  match localRequest lib httpPort req with
  | .error e => .error e
  | .ok request =>
    match fetch request with
    | .error e => .error (.fetchingResponse e)
    | .ok response => responseData lib response

def request (lib : HttpLib N V M) (httpPort : String → Option Addr)
    (fetch : Request N V M → Except String (Response N V)) (req : HttpRequest) : HttpResponse :=
  { uuid := req.uuid
    payload := some (match sendRequest lib httpPort fetch req with
      | .ok data => .data data
      | .error e => .error (some e)) }

end Np

end HttpForward
