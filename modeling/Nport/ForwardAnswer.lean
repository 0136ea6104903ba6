import Nport.HeaderSurvival

/-! The whole of forward, from the receiver that enqueue_request hands out to the response:
forward_request with its errors, the error page, and the data of a client's answer. Every
number and every header in that data is chosen by the client. -/
namespace ForwardAnswer

open Multimap
open PortTask (Bytes)
open HttpForward

variable {N V M : Type*} [DecidableEq N]

/-- What timeout(response_timeout, rx) comes back with. -/
inductive Waited where
  | elapsed
  | closed
  | answer (response : HttpResponse)

inductive ForwardRequestError where
  | clientNotFound
  | emptyResponsePayload
  | timeout
  | recv
  | errorResponse (error : Option HttpError)

def ForwardRequestError.statusCode : ForwardRequestError → UInt16
  | .clientNotFound => 404
  | .emptyResponsePayload => 500
  | .timeout => 504
  | .recv => 500
  | .errorResponse _ => 502

def ForwardRequestError.httpError : ForwardRequestError → String
  | .clientNotFound => "404 Not Found"
  | .emptyResponsePayload => "500 Internal Server Error"
  | .timeout => "504 Gateway Timeout"
  | .recv => "500 Internal Server Error"
  | .errorResponse _ => "502 Bad Gateway"

/-- HttpResponseErrorDisplayer -/
def displayError : Option HttpError → String
  | none => "unknown error"
  | some (.forwardingNotRegistered hostname) => "forwarding not registered for " ++ hostname
  | some (.invalidMethod method error) => "invalid HTTP method " ++ method ++ ": " ++ error
  | some (.invalidHeaderName headerName _) => "invalid header name for: " ++ headerName
  | some (.invalidHeaderValue headerName headerValue _) =>
    "invalid header value for " ++ headerName ++ ": " ++ headerValue
  | some (.creatingRequest error) => "error creating request: " ++ error
  | some (.fetchingResponse error) => "error fetching response: " ++ error
  | some (.readingResponse error) => "error reading response: " ++ error

def ForwardRequestError.display : ForwardRequestError → String
  | .clientNotFound => "no client registered for this domain"
  | .emptyResponsePayload => "empty response from client"
  | .timeout => "timeout awaiting HTTP response"
  | .recv => "error receiving HTTP response: channel closed"
  | .errorResponse error => "error from client: " ++ displayError error

/-- No receiver is an error of enqueue_request, whichever it was. -/
def forwardRequest (rx : Option Waited) : Except ForwardRequestError HttpResponseData :=
  match rx with
  | none => .error .clientNotFound
  | some .elapsed => .error .timeout
  | some .closed => .error .recv
  | some (.answer response) =>
    match response.payload with
    | none => .error .emptyResponsePayload
    | some (.error error) => .error (.errorResponse error)
    | some (.data data) => .ok data

/-- The size a HeaderMap can have: whether collecting headers into one, and extending one
by another, return. They panic when there are too many. -/
structure HeaderLimits (N V : Type*) where
  canCollect : List (N × V) → Bool
  canExtend : Grouped N V → Grouped N V → Bool

def validHeaders (lib : HttpLib N V M) (data : HttpResponseData) : List (N × V) :=
  (data.headers.entries.map fun e => (e.1, e.2)).filterMap (responseHeader lib)

def headerMap (lib : HttpLib N V M) (data : HttpResponseData) : Grouped N V :=
  (validHeaders lib data).foldl (fun m h => m.append h.1 h.2) .empty

def Fits (lib : HttpLib N V M) (limits : HeaderLimits N V) (bodyHeaders : Grouped N V)
    (data : HttpResponseData) : Prop :=
  limits.canCollect (validHeaders lib data) = true ∧
    limits.canExtend bodyHeaders (headerMap lib data) = true

instance (lib : HttpLib N V M) (limits : HeaderLimits N V) (bodyHeaders : Grouped N V)
    (data : HttpResponseData) : Decidable (Fits lib limits bodyHeaders data) :=
  inferInstanceAs (Decidable (_ ∧ _))

inductive Answer (N V : Type*) where
  | relayed (response : Response N V)
  /-- the template error.html -/
  | page (status : UInt16) (html : String)
  /-- Error::Template as a response: 500 Internal Server Error -/
  | templateError

/-- render is Tera::render, with none for its errors. -/
def errorPage (render : String → List (String × String) → Option String) (hostname : String)
    (error : ForwardRequestError) : Answer N V :=
  let context :=
    [("hostname", hostname), ("error", error.display), ("http_error", error.httpError)]
  match render "error.html" context with
  | some html => .page error.statusCode html
  | none => .templateError

/-- The response of forward; none is a panic of the handler. -/
def forward (lib : HttpLib N V M) (limits : HeaderLimits N V) (bodyHeaders : Grouped N V)
    (render : String → List (String × String) → Option String) (hostname : String)
    (rx : Option Waited) : Option (Answer N V) :=
  match forwardRequest rx with
  | .ok data =>
    if Fits lib limits bodyHeaders data then
      (forwardData lib bodyHeaders data).map .relayed
    else none
  | .error error => some (errorPage render hostname error)

/-- An answer comes out, and if it relays data it has the status that was sent. -/
def Survives (rx : Option Waited) : Option (Answer N V) → Prop
  | none => False
  | some (.relayed response) => ∃ data, forwardRequest rx = .ok data ∧
      response.status.toNat = data.statusCode.toNat
  | some (.page _ _) | some .templateError => ∀ data, forwardRequest rx ≠ .ok data

theorem toUInt16_toNat (n : UInt32) : n.toUInt16.toNat = n.toNat % 65536 := by
  simp

/-- StatusCode::from_u16 after the cast: three digits, of the number modulo 65536. -/
theorem forwardData_eq (lib : HttpLib N V M) (bodyHeaders : Grouped N V)
    (data : HttpResponseData) :
    forwardData lib bodyHeaders data =
      if 100 ≤ data.statusCode.toNat % 65536 ∧ data.statusCode.toNat % 65536 < 1000 then
        some ⟨data.statusCode.toUInt16, bodyHeaders.extend none (headerMap lib data).intoIter,
          .ok data.body⟩
      else none := by
  have hrange : (100 ≤ data.statusCode.toUInt16 ∧ data.statusCode.toUInt16 < 1000) ↔
      (100 ≤ data.statusCode.toNat % 65536 ∧ data.statusCode.toNat % 65536 < 1000) := by
    rw [UInt16.le_iff_toNat_le, UInt16.lt_iff_toNat_lt, toUInt16_toNat]
    rfl
  simp only [forwardData, hrange]
  rfl

/-- Whatever is not an answer with data gets a response of its own. -/
theorem survives_without_data (lib : HttpLib N V M) (limits : HeaderLimits N V)
    (bodyHeaders : Grouped N V) (render : String → List (String × String) → Option String)
    (hostname : String) {rx : Option Waited} {error : ForwardRequestError}
    (h : forwardRequest rx = .error error) :
    Survives rx (forward lib limits bodyHeaders render hostname rx) := by
  simp only [forward, h, errorPage]
  split
  · simp [Survives, h]
  · simp [Survives, h]

theorem survives_data_iff (lib : HttpLib N V M) (limits : HeaderLimits N V)
    (bodyHeaders : Grouped N V) (render : String → List (String × String) → Option String)
    (hostname : String) {rx : Option Waited} {data : HttpResponseData}
    (h : forwardRequest rx = .ok data) :
    Survives rx (forward lib limits bodyHeaders render hostname rx) ↔
      100 ≤ data.statusCode.toNat ∧ data.statusCode.toNat < 1000 ∧
        Fits lib limits bodyHeaders data := by
  simp only [forward, h]
  by_cases hf : Fits lib limits bodyHeaders data
  · rw [if_pos hf, forwardData_eq]
    by_cases hr : 100 ≤ data.statusCode.toNat % 65536 ∧ data.statusCode.toNat % 65536 < 1000
    · simp only [hr, and_self, if_true, Option.map_some, Survives, h, toUInt16_toNat,
        Except.ok.injEq, exists_eq_left', hf, and_true]
      constructor
      · intro heq
        omega
      · intro hlt
        omega
    · simp only [hr, if_false, Option.map_none, Survives, false_iff]
      rintro ⟨h1, h2, _⟩
      apply hr
      omega
  · simp [hf, Survives]

/-- forward answers, with the status the client sent where it relays data, exactly when the
answer of the client is without data, or has a status code of three digits and no more
valid headers than a HeaderMap can hold. -/
theorem forward_survives_iff (lib : HttpLib N V M) (limits : HeaderLimits N V)
    (bodyHeaders : Grouped N V) (render : String → List (String × String) → Option String)
    (hostname : String) (response : HttpResponse) :
    Survives (some (.answer response))
        (forward lib limits bodyHeaders render hostname (some (.answer response))) ↔
      ∀ data, response.payload = some (.data data) →
        100 ≤ data.statusCode.toNat ∧ data.statusCode.toNat < 1000 ∧
          Fits lib limits bodyHeaders data := by
  cases hp : response.payload with
  | none =>
    have he : forwardRequest (some (.answer response)) = .error .emptyResponsePayload := by
      simp [forwardRequest, hp]
    simpa using survives_without_data lib limits bodyHeaders render hostname he
  | some payload =>
    cases payload with
    | error error =>
      have he : forwardRequest (some (.answer response)) = .error (.errorResponse error) := by
        simp [forwardRequest, hp]
      simpa using survives_without_data lib limits bodyHeaders render hostname he
    | data data =>
      have ho : forwardRequest (some (.answer response)) = .ok data := by
        simp [forwardRequest, hp]
      simpa using survives_data_iff lib limits bodyHeaders render hostname ho

def bare (statusCode : UInt32) : HttpResponse :=
  ⟨"uuid", some (.data ⟨collect [], statusCode, []⟩)⟩

def unlimited : HeaderLimits HeaderSurvival.Name HeaderSurvival.Value :=
  ⟨fun _ => true, fun _ _ => true⟩

def forwardBare (statusCode : UInt32) : Option (Answer HeaderSurvival.Name HeaderSurvival.Value) :=
  forward HeaderSurvival.plainHttp unlimited HeaderSurvival.octetStream (fun _ _ => some "")
    "something.localhost" (some (.answer (bare statusCode)))

/-- A status code left at its default is a panic, 65736 is relayed as 200. -/
theorem forward_status_lost :
    forwardBare 0 = none ∧
      ∃ response, forwardBare 65736 = some (.relayed response) ∧ response.status = 200 ∧
        ¬ Survives (some (.answer (bare 65736))) (forwardBare 65736) := by
  refine ⟨rfl, _, rfl, rfl, ?_⟩
  rintro ⟨data, hd, hs⟩
  obtain rfl := Except.ok.inj hd
  revert hs
  decide

end ForwardAnswer
