import Nport.ForwardAnswer
import Nport.HttpExchange
import Nport.LocalUrl

/-! HTTP requests through the tunnel from end to end. The client at the other end is np, which
dispatches one message after the other: it takes a request when the one before it is answered,
and answers with what its local service says to it then. -/
namespace HttpService

open GuardedMachine
open Multimap
open Libnp
open PortTask (Bytes)
open HttpForward
open HttpExchange
open ForwardAnswer

variable {C K N V M : Type*}

structure Incoming (N V M : Type*) where
  viaTls : Bool
  hostname : String
  addr : String × UInt16
  method : M
  originalUri : String
  headers : Grouped N V
  body : Bytes

/-! What the decoder gives for a message. The entries of a map come in any order. -/

def DecodedRequest (sent received : HttpRequest) : Prop :=
  ∃ headers, headers.entries.Perm sent.headers.entries ∧ received = { sent with headers }

def DecodedData (sent received : HttpResponseData) : Prop :=
  ∃ headers, headers.entries.Perm sent.headers.entries ∧ received = { sent with headers }

inductive DecodedPayload : Option Payload → Option Payload → Prop where
  | absent : DecodedPayload none none
  | error (error) : DecodedPayload (some (.error error)) (some (.error error))
  | data {sent received} : DecodedData sent received →
    DecodedPayload (some (.data sent)) (some (.data received))

structure DecodedResponse (sent received : HttpResponse) : Prop where
  uuid : received.uuid = sent.uuid
  payload : DecodedPayload sent.payload received.payload

/-- Where np forwards at one time or another, and what the service there says to a request. -/
structure Local (N V M : Type*) where
  forwardings : (String → Option Addr) → Prop
  serves : Request N V M → Except String (Response N V) → Prop

section Np

variable [DecidableEq N]

def Incoming.message (lib : HttpLib N V M) (isLoopback : String → Bool) (q : Incoming N V M)
    (uuid : String) : Option HttpRequest :=
  enqueueRequest lib isLoopback q.viaTls uuid q.hostname q.addr q.method q.originalUri q.headers
    q.body

/-- The answer to a request that np has taken: its forwardings are what they are by then, and so
is the local service. -/
def Answers (lib : HttpLib N V M) (np : Local N V M) (sent : HttpRequest)
    (response : HttpResponse) : Prop :=
  ∃ received httpPort fetch, DecodedRequest sent received ∧ np.forwardings httpPort ∧
    (∀ built, np.serves built (fetch built)) ∧
    DecodedResponse (request lib httpPort fetch received) response

/-- The server sends what enqueue_request makes of the request of a call, and np serves one
request at a time. -/
def ByNp (lib : HttpLib N V M) (isLoopback : String → Bool) (np : C → Local N V M)
    (ask : K → Incoming N V M) (s : State C K) : Event C K → Prop
  | .enqueue k request _ _ => (ask k).message lib isLoopback request.uuid = some request
  | .take c => s.working c = []
  | .answer c uuid payload _ =>
    ∀ request ∈ s.working c, request.uuid = uuid → Answers lib (np c) request ⟨uuid, payload⟩
  | _ => True

end Np

/-! The requests that were put on the websocket of a client. -/

section Enqueued

variable [DecidableEq C]

def enqueues (c : C) (s : State C K) : Event C K → Option HttpRequest
  | .enqueue k request _ true => if s.handler k = some c then some request else none
  | _ => none

def enqueued (c : C) (tr : List (State C K × Event C K)) : List HttpRequest :=
  tr.filterMap fun p => enqueues c p.1 p.2

theorem enqueued_concat (c : C) (tr : List (State C K × Event C K)) (s : State C K)
    (e : Event C K) : enqueued c (tr ++ [(s, e)]) = enqueued c tr ++ (enqueues c s e).toList := by
  cases h : enqueues c s e <;> simp [enqueued, h]

end Enqueued

/-- The requests on a websocket have been answered in their order, up to the one that is being
served and those that are still to be taken. -/
structure InOrder [DecidableEq C] [DecidableEq N] (lib : HttpLib N V M)
    (np : C → Local N V M) (c : C) (tr : List (State C K × Event C K)) (s : State C K) :
    Prop where
  one : (s.working c).length ≤ 1
  answered : ∃ answered, enqueued c tr = answered ++ s.working c ++ s.down c ∧
    List.Forall₂ (Answers lib (np c)) answered (s.sent c)

structure Named [DecidableEq C] (c : C) (tr : List (State C K × Event C K)) (s : State C K) :
    Prop where
  nodup : ((enqueued c tr).map HttpRequest.uuid).Nodup
  call : ∀ request ∈ enqueued c tr, ∃ k, (∃ p ∈ tr, ∃ ok, p.2 = .enqueue k request ok true) ∧
    s.uuid k = some request.uuid ∧ (s.phase k = .waiting ∨ s.phase k = .finished)

section Step

variable [DecidableEq C] [DecidableEq K] [DecidableEq N]
  {honest : C → Bool} {lib : HttpLib N V M} {isLoopback : String → Bool}
  {np : C → Local N V M} {ask : K → Incoming N V M} {c : C}
  {tr : List (State C K × Event C K)} {s t : State C K} {e : Event C K}

theorem inOrder_step (h : InOrder lib np c tr s) (hc : honest c = true)
    (hstep : HttpExchange.Step honest s e t) (hby : ByNp lib isLoopback np ask s e) :
    InOrder lib np c (tr ++ [(s, e)]) t := by
  have kept (henq : enqueues c s e = none) (hw : t.working c = s.working c)
      (hd : t.down c = s.down c) (hs : t.sent c = s.sent c) :
      InOrder lib np c (tr ++ [(s, e)]) t := by
    refine ⟨hw ▸ h.one, ?_⟩
    rw [enqueued_concat, henq, hw, hd, hs, Option.toList_none, List.append_nil]
    exact h.answered
  obtain ⟨hone, answered, heq, hall⟩ := h
  cases hstep with
  | enqueue k d request ok reached _ _ hd =>
    refine ⟨hone, answered, ?_, hall⟩
    rw [enqueued_concat, heq]
    cases reached with
    | false => simp [enqueues]
    | true =>
      by_cases hdc : c = d
      · subst d
        simp [enqueues, hd]
      · simp [enqueues, hd, hdc, Ne.symm hdc]
  | take d request rest hdown =>
    by_cases hdc : c = d
    · subst d
      have hidle : s.working c = [] := hby
      refine ⟨by simp [hidle], answered, ?_, hall⟩
      rw [enqueued_concat, heq]
      simp [enqueues, hidle, hdown]
    · exact kept rfl (by simp [hdc]) (by simp [hdc]) rfl
  | answer d uuid payload reached hworking =>
    by_cases hdc : c = d
    · subst d
      -- the request being served is the one that is answered
      obtain ⟨request, hmem, huuid⟩ := List.any_eq_true.mp hworking
      have huuid : request.uuid = uuid := by simpa using huuid
      have hlen : (s.working c).length = 1 := hone.antisymm (List.length_pos_of_mem hmem)
      obtain ⟨other, hsingle⟩ := List.length_eq_one_iff.mp hlen
      obtain rfl : request = other := by simpa [hsingle] using hmem
      refine ⟨by simp [hsingle, huuid], answered ++ [request], ?_, ?_⟩
      · rw [enqueued_concat, heq]
        simp [enqueues, hsingle, huuid]
      · have hlast : Answers lib (np c) request ⟨uuid, payload⟩ := hby request hmem huuid
        simpa using List.rel_append hall (.cons hlast .nil)
    · exact kept rfl (by simp [hdc]) rfl (by simp [hdc])
  | forge d response hd =>
    have hdc : c ≠ d := by
      rintro rfl
      rw [hc] at hd
      cases hd
    exact kept rfl rfl rfl (by simp [hdc])
  | finished k e he =>
    rcases he with rfl | rfl | rfl <;> exact kept rfl rfl rfl rfl
  | _ => exact kept rfl rfl rfl rfl

omit [DecidableEq K] in
theorem enqueues_eq_some {request : HttpRequest} (h : enqueues c s e = some request) :
    ∃ k ok, e = .enqueue k request ok true := by
  unfold enqueues at h
  split at h
  · next k sent ok =>
    split at h
    · exact ⟨k, ok, by rw [Option.some.inj h]⟩
    · cases h
  · cases h

theorem sent_phase (hstep : HttpExchange.Step honest s e t) {k : K}
    (hk : s.phase k = .waiting ∨ s.phase k = .finished) :
    t.phase k = .waiting ∨ t.phase k = .finished := by
  cases hstep.call k with
  | kept hp => rwa [hp]
  | looked hp => simp [hp] at hk
  | registered u hp => simp [hp] at hk
  | left hp =>
    rcases hp with ⟨hr, _⟩ | hfin
    · simp [hr] at hk
    · exact Or.inr hfin

theorem named_step (h : Named c tr s) (hi : HttpExchange.Invariant s)
    (hstep : HttpExchange.Step honest s e t) : Named c (tr ++ [(s, e)]) t := by
  have hold (request : HttpRequest) (hr : request ∈ enqueued c tr) :
      ∃ k, (∃ p ∈ tr ++ [(s, e)], ∃ ok, p.2 = .enqueue k request ok true) ∧
        t.uuid k = some request.uuid ∧ (t.phase k = .waiting ∨ t.phase k = .finished) := by
    obtain ⟨k, ⟨p, hp, ok, hpe⟩, huuid, hphase⟩ := h.call request hr
    exact ⟨k, ⟨p, List.mem_append_left _ hp, ok, hpe⟩, hstep.uuid_kept hi huuid,
      sent_phase hstep hphase⟩
  cases henq : enqueues c s e with
  | none =>
    have heq : enqueued c (tr ++ [(s, e)]) = enqueued c tr := by
      rw [enqueued_concat, henq, Option.toList_none, List.append_nil]
    exact ⟨heq ▸ h.nodup, fun request hr => hold request (heq ▸ hr)⟩
  | some request =>
    have heq : enqueued c (tr ++ [(s, e)]) = enqueued c tr ++ [request] := by
      rw [enqueued_concat, henq, Option.toList_some]
    obtain ⟨k, ok, rfl⟩ := enqueues_eq_some henq
    have hlast : s.phase k = .registered ∧ s.uuid k = some request.uuid ∧
        (t.phase k = .waiting ∨ t.phase k = .finished) := by
      cases hstep with
      | enqueue _ _ _ _ _ hphase huuid => exact ⟨hphase, huuid, by cases ok <;> simp⟩
      | finished _ _ he => simp at he
    refine ⟨?_, ?_⟩
    · rw [heq, List.map_append, List.map_singleton, List.nodup_append]
      refine ⟨h.nodup, List.nodup_singleton _, ?_⟩
      intro u hu v hv huv
      obtain ⟨other, ho, rfl⟩ := List.mem_map.mp hu
      obtain ⟨k', _, huuid, hphase⟩ := h.call other ho
      rw [huv, List.mem_singleton.mp hv] at huuid
      rw [hi.distinct k' k _ huuid hlast.2.1, hlast.1] at hphase
      simp at hphase
    · intro other ho
      rw [heq] at ho
      rcases List.mem_append.mp ho with ho | ho
      · exact hold other ho
      · obtain rfl := List.mem_singleton.mp ho
        exact ⟨k, ⟨_, List.mem_append_right _ List.mem_cons_self, ok, rfl⟩,
          hstep.uuid_kept hi hlast.2.1, hlast.2.2⟩

end Step

section Run

variable [DecidableEq C] [DecidableEq K] [DecidableEq N]
  {honest : C → Bool} {lib : HttpLib N V M} {isLoopback : String → Bool}
  {np : C → Local N V M} {ask : K → Incoming N V M} {c : C}
  {tr : List (State C K × Event C K)} {s : State C K}

theorem named_of_run (h : Run (exchange honest) tr s) : Named c tr s := by
  induction h with
  | refl => exact ⟨by simp [enqueued], by simp [enqueued]⟩
  | @tail tr u e hpath he ih =>
    have hi := reachable_invariant ⟨tr, hpath⟩
    exact named_step ih hi (next_step hi he)

theorem inOrder_of_run (h : Run (exchange honest) tr s) (hc : honest c = true)
    (hby : ∀ p ∈ tr, ByNp lib isLoopback np ask p.1 p.2) : InOrder lib np c tr s := by
  induction h with
  | refl => exact ⟨Nat.zero_le _, [], rfl, .nil⟩
  | @tail tr u e hpath he ih =>
    have hi := reachable_invariant ⟨tr, hpath⟩
    have hold := ih fun p hp => hby p (List.mem_append_left _ hp)
    exact inOrder_step hold hc (next_step hi he) (hby (u, e) (by simp))

/-- np serves the requests that are put on its websocket in their order and each of them once,
and answers each with what its local service says to it. -/
theorem served_in_order (h : Run (exchange honest) tr s) (hc : honest c = true)
    (hby : ∀ p ∈ tr, ByNp lib isLoopback np ask p.1 p.2) :
    ((enqueued c tr).map HttpRequest.uuid).Nodup ∧ (s.working c).length ≤ 1 ∧
      ∃ answered, enqueued c tr = answered ++ s.working c ++ s.down c ∧
        List.Forall₂ (Answers lib (np c)) answered (s.sent c) := by
  obtain ⟨hone, hanswered⟩ := inOrder_of_run h hc hby
  exact ⟨(named_of_run h).nodup, hone, hanswered⟩

omit [DecidableEq C] [DecidableEq K] [DecidableEq N] in
theorem exists_of_forall₂ {α β : Type*} {R : α → β → Prop} {l : List α} {m : List β}
    (h : List.Forall₂ R l m) {b : β} (hb : b ∈ m) : ∃ a ∈ l, R a b := by
  induction h with
  | nil => cases hb
  | @cons a b' l m hr _ ih =>
    rcases List.mem_cons.mp hb with rfl | hb
    · exact ⟨a, List.mem_cons_self, hr⟩
    · obtain ⟨a', ha, hr'⟩ := ih hb
      exact ⟨a', List.mem_cons_of_mem _ ha, hr'⟩

/-- What a call obtains answers the request that it sent. -/
theorem obtained_answers (h : Run (exchange honest) tr s)
    (hby : ∀ p ∈ tr, ByNp lib isLoopback np ask p.1 p.2) {k : K} {r : HttpResponse}
    (hk : s.handler k = some c) (hc : honest c = true) (hr : s.obtained k = some r) :
    ∃ sent, (ask k).message lib isLoopback sent.uuid = some sent ∧ Answers lib (np c) sent r := by
  have hi := reachable_invariant ⟨tr, h⟩
  obtain ⟨d, hd, huuid, hmem⟩ := (hi.taken k r hr).1
  obtain rfl : c = d := Option.some.inj (hk.symm.trans hd)
  obtain ⟨answered, henq, hall⟩ := (inOrder_of_run h hc hby).answered
  obtain ⟨sent, hsent, hanswers⟩ := exists_of_forall₂ hall hmem
  have henqueued : sent ∈ enqueued c tr := by
    rw [henq]
    simp [hsent]
  obtain ⟨k', ⟨p, hp, ok, hpe⟩, huuid', _⟩ := (named_of_run h).call sent henqueued
  have hsame : r.uuid = sent.uuid := by
    obtain ⟨received, httpPort, fetch, ⟨headers, _, rfl⟩, _, _, hresponse⟩ := hanswers
    exact hresponse.uuid
  obtain rfl : k' = k := hi.distinct k' k _ huuid' (hsame ▸ huuid)
  have hask := hby p hp
  rw [hpe] at hask
  exact ⟨sent, hask, hanswers⟩

end Run

section Requester

variable [DecidableEq N] {lib : HttpLib N V M}

/-- What a response of np tells of a request that it has decoded. -/
theorem payload_cases {httpPort : String → Option Addr}
    {fetch : Request N V M → Except String (Response N V)} {received : HttpRequest}
    {response : HttpResponse}
    (h : DecodedResponse (request lib httpPort fetch received) response) :
    (∃ error, response.payload = some (.error (some error))) ∨
      ∃ built served data decoded, localRequest lib httpPort received = .ok built ∧
        fetch built = .ok served ∧ responseData lib served = .ok data ∧
        DecodedData data decoded ∧ response.payload = some (.data decoded) := by
  have hpayload := h.payload
  simp only [request, sendRequest] at hpayload
  generalize response.payload = payload at hpayload ⊢
  cases hbuilt : localRequest lib httpPort received with
  | error e =>
    rw [hbuilt] at hpayload
    cases hpayload
    exact Or.inl ⟨e, rfl⟩
  | ok built =>
    rw [hbuilt] at hpayload
    cases hfetch : fetch built with
    | error e =>
      simp only [hfetch] at hpayload
      cases hpayload
      exact Or.inl ⟨_, rfl⟩
    | ok served =>
      cases hdata : responseData lib served with
      | error e =>
        simp only [hfetch, hdata] at hpayload
        cases hpayload
        exact Or.inl ⟨e, rfl⟩
      | ok data =>
        simp only [hfetch, hdata] at hpayload
        cases hpayload with
        | data hdecoded => exact Or.inr ⟨built, served, data, _, rfl, hfetch, hdata, hdecoded, rfl⟩

/-- The request for the local service is the incoming one, at the address of its hostname. -/
structure Forwarded (lib : HttpLib N V M) (q : Incoming N V M) (addr : Addr)
    (built : Request N V M) : Prop where
  uri : built.uri = LocalUrl.url addr q.originalUri
  method : built.method = q.method
  headers : ∀ n, built.headers.getAll n = (q.headers.getAll n).getLast?.toList
  body : built.body = q.body

/-- The response to the incoming request is that of the local service. -/
structure Relayed (lib : HttpLib N V M) (bodyHeaders : Grouped N V)
    (served response : Response N V) : Prop where
  status : response.status = served.status
  headers : ∀ n, shouldSkipHeader (lib.asStr n) = false → response.headers.getAll n =
    if served.headers.getAll n = [] then bodyHeaders.getAll n
    else (served.headers.getAll n).getLast?.toList
  body : response.body = served.body

theorem forwarded_of_localRequest {isLoopback : String → Bool} {q : Incoming N V M}
    {sent received : HttpRequest} {httpPort : String → Option Addr} {built : Request N V M}
    (hmethod : ∀ m, lib.methodFromBytes (lib.methodToString m) = .ok m)
    (hsent : q.message lib isLoopback sent.uuid = some sent)
    (hwire : DecodedRequest sent received)
    (hbuilt : localRequest lib httpPort received = .ok built) :
    ∃ addr, httpPort q.hostname = some addr ∧ Forwarded lib q addr built := by
  obtain ⟨headers, hperm, hreceived⟩ := hwire
  have hmessage := hsent
  rw [Incoming.message, enqueueRequest, HeaderSurvival.resolveNames_intoIter,
    Option.map_some] at hmessage
  have hfields := Option.some.inj hmessage
  have hhostname : received.hostname = q.hostname := by
    rw [hreceived]
    exact congrArg HttpRequest.hostname hfields.symm
  have huri : received.uri = q.originalUri := by
    rw [hreceived]
    exact congrArg HttpRequest.uri hfields.symm
  have hname : received.method = lib.methodToString q.method := by
    rw [hreceived]
    exact congrArg HttpRequest.method hfields.symm
  have hbody : received.body = some q.body := by
    rw [hreceived]
    exact congrArg HttpRequest.body hfields.symm
  have hheaders : received.headers.entries.Perm sent.headers.entries := by
    rw [hreceived]
    exact hperm
  cases hport : httpPort received.hostname with
  | none =>
    rw [LocalUrl.localRequest_unregistered hport] at hbuilt
    cases hbuilt
  | some addr =>
    obtain ⟨method, _, hm, _, _, hrequest⟩ := (LocalUrl.localRequest_ok hport).mp hbuilt
    rw [hname, hmethod] at hm
    refine ⟨addr, hhostname ▸ hport, ⟨?_, ?_, ?_, ?_⟩⟩
    · rw [hrequest, huri]
    · rw [hrequest, Except.ok.inj hm]
    · exact HeaderSurvival.localRequest_headers lib hsent hheaders hbuilt
    · rw [hrequest, hbody]
      rfl

omit [DecidableEq N] in
theorem statusCode_of_responseData {served : Response N V} {data decoded : HttpResponseData}
    (hdata : responseData lib served = .ok data) (hwire : DecodedData data decoded) :
    decoded.statusCode.toNat % 65536 = served.status.toNat := by
  obtain ⟨headers, _, rfl⟩ := hwire
  unfold responseData at hdata
  split at hdata
  · cases hdata
  · rw [← Except.ok.inj hdata]
    have hlt := served.status.toNat_lt
    simp only [UInt16.toNat_toUInt32]
    omega

theorem relayed_of_forwardData {bodyHeaders : Grouped N V} {served response : Response N V}
    {data decoded : HttpResponseData} (hdata : responseData lib served = .ok data)
    (hwire : DecodedData data decoded)
    (hforward : forwardData lib bodyHeaders decoded = some response) :
    Relayed lib bodyHeaders served response := by
  obtain ⟨headers, hperm, rfl⟩ := hwire
  have hheaders : ∀ n, shouldSkipHeader (lib.asStr n) = false → _ := fun n hn =>
    HeaderSurvival.forwardData_headers lib hdata hperm hforward hn
  rw [forwardData_eq] at hforward
  split at hforward
  · have hresponse := Option.some.inj hforward
    unfold responseData at hdata
    split at hdata
    · cases hdata
    · next body hbody =>
      have hfields := Except.ok.inj hdata
      refine ⟨?_, hheaders, ?_⟩
      · rw [← hresponse, ← hfields]
        simp
      · rw [← hresponse, ← hfields, hbody]
  · cases hforward

/-- What is seen at one end of the tunnel of what the other end does. -/
inductive Seen (lib : HttpLib N V M) (limits : HeaderLimits N V) (bodyHeaders : Grouped N V)
    (render : String → List (String × String) → Option String) (np : Local N V M)
    (q : Incoming N V M) : Option (Answer N V) → Prop where
  | relayed {httpPort addr built served response} : np.forwardings httpPort →
    httpPort q.hostname = some addr → Forwarded lib q addr built → np.serves built (.ok served) →
    Relayed lib bodyHeaders served response →
    Seen lib limits bodyHeaders render np q (some (.relayed response))
  | page (html) : Seen lib limits bodyHeaders render np q (some (.page 502 html))
  | templateError {context} : render "error.html" context = none →
    Seen lib limits bodyHeaders render np q (some .templateError)
  /-- too many headers, or a status that is none -/
  | panic {built served data decoded} : np.serves built (.ok served) →
    responseData lib served = .ok data → DecodedData data decoded →
    ¬ (Fits lib limits bodyHeaders decoded ∧ 100 ≤ served.status.toNat ∧
      served.status.toNat < 1000) →
    Seen lib limits bodyHeaders render np q none

end Requester

section EndToEnd

variable [DecidableEq C] [DecidableEq K] [DecidableEq N] {honest : C → Bool}
  {lib : HttpLib N V M} {isLoopback : String → Bool} {np : C → Local N V M}
  {ask : K → Incoming N V M} {c : C} {tr : List (State C K × Event C K)} {s : State C K}

/-- Whoever sent a request that obtained an answer of np sees what the local service said to that
very request, as far as it is relayed, or an error of the server. -/
theorem requester_sees (hmethod : ∀ m, lib.methodFromBytes (lib.methodToString m) = .ok m)
    (limits : HeaderLimits N V) (bodyHeaders : Grouped N V)
    (render : String → List (String × String) → Option String)
    (h : Run (exchange honest) tr s) (hby : ∀ p ∈ tr, ByNp lib isLoopback np ask p.1 p.2)
    {k : K} {r : HttpResponse} (hk : s.handler k = some c) (hc : honest c = true)
    (hr : s.obtained k = some r) :
    Seen lib limits bodyHeaders render (np c) (ask k)
      (forward lib limits bodyHeaders render (ask k).hostname (some (.answer r))) := by
  obtain ⟨sent, hsent, received, httpPort, fetch, hwire, hforwards, hserves, hresponse⟩ :=
    obtained_answers h hby hk hc hr
  rcases payload_cases hresponse with ⟨error, hpayload⟩ |
    ⟨built, served, data, decoded, hbuilt, hfetch, hdata, hdecoded, hpayload⟩
  · have herror : forwardRequest (some (.answer r)) = .error (.errorResponse (some error)) := by
      simp [forwardRequest, hpayload]
    simp only [forward, herror, errorPage]
    split
    · exact .page _
    · next hrender => exact .templateError hrender
  · have hok : forwardRequest (some (.answer r)) = .ok decoded := by
      simp [forwardRequest, hpayload]
    have hserved : (np c).serves built (.ok served) := hfetch ▸ hserves built
    simp only [forward, hok]
    split
    · cases hforward : forwardData lib bodyHeaders decoded with
      | some response =>
        obtain ⟨addr, haddr, hforwarded⟩ := forwarded_of_localRequest hmethod hsent hwire hbuilt
        exact .relayed hforwards haddr hforwarded hserved
          (relayed_of_forwardData hdata hdecoded hforward)
      | none =>
        refine .panic hserved hdata hdecoded fun hfits => ?_
        rw [forwardData_eq, if_pos] at hforward
        · cases hforward
        · rw [statusCode_of_responseData hdata hdecoded]
          exact hfits.2
    · next hfits => exact .panic hserved hdata hdecoded fun hboth => hfits hboth.1

end EndToEnd

section Concrete

open HeaderSurvival (Name Value plainHttp)
open LocalUrl (onPort8080)

def hello : Incoming Name Value String :=
  ⟨false, "something.nport.io", ("198.51.100.7", 50000), "GET", "/", .empty, [104, 105]⟩

def helloMessage (uuid : String) : HttpRequest :=
  { uuid
    hostname := "something.nport.io"
    httpClientAddress := some (Addr.fromHostAndPort (fun _ => false) "198.51.100.7" 50000).toAddress
    scheme := .https
    method := "GET"
    uri := "/"
    headers := collect []
    body := some [104, 105] }

def echo (built : Request Name Value String) : Except String (Response Name Value) :=
  .ok ⟨200, .empty, .ok built.body⟩

def echoing : Local Name Value String :=
  ⟨fun httpPort => httpPort = onPort8080, fun built result => result = echo built⟩

def helloAnswer (uuid : String) : HttpResponse :=
  request plainHttp onPort8080 echo (helloMessage uuid)

theorem helloAnswer_answers (uuid : String) :
    Answers plainHttp echoing (helloMessage uuid) (helloAnswer uuid) :=
  ⟨helloMessage uuid, onPort8080, echo, ⟨_, .refl _, rfl⟩, rfl, fun _ => rfl, rfl,
    .data ⟨_, .refl _, rfl⟩⟩

def twoAtOnce : List (Event Unit Bool) :=
  [.lookup false (some ()), .register false "a", .enqueue false (helloMessage "a") true true,
    .lookup true (some ()), .register true "b", .enqueue true (helloMessage "b") true true,
    .take (), .answer () "a" (helloAnswer "a").payload true, .take (),
    .sendHttpResponse (), .answer () "b" (helloAnswer "b").payload true, .receive false,
    .sendHttpResponse (), .receive true]

abbrev helloExchange : Machine (State Unit Bool) (Event Unit Bool) := exchange fun _ => true

theorem twoAtOnce_accepted : Accepts helloExchange initial twoAtOnce := by decide

theorem twoAtOnce_byNp : ∀ p ∈ trace helloExchange initial twoAtOnce,
    ByNp plainHttp (fun _ => false) (fun _ => echoing) (fun _ => hello) p.1 p.2 := by
  have hanswer {s : State Unit Bool} {uuid : String} (hs : s.working () = [helloMessage uuid]) :
      ByNp plainHttp (fun _ => false) (fun _ => echoing) (fun _ => hello) s
        (.answer () uuid (helloAnswer uuid).payload true) := by
    intro request hmem _
    rw [hs] at hmem
    rw [List.mem_singleton.mp hmem]
    exact helloAnswer_answers uuid
  intro p hp
  simp only [twoAtOnce, trace, List.mem_cons, List.not_mem_nil, or_false] at hp
  rcases hp with rfl | rfl | rfl | rfl | rfl | rfl | rfl | rfl | rfl | rfl | rfl | rfl | rfl | rfl
  · trivial
  · trivial
  · rfl
  · trivial
  · trivial
  · rfl
  · rfl
  · exact hanswer rfl
  · rfl
  · trivial
  · exact hanswer rfl
  · trivial
  · trivial
  · trivial

theorem served_in_order_both :
    List.Forall₂ (Answers plainHttp echoing) [helloMessage "a", helloMessage "b"]
      (replay helloExchange initial twoAtOnce |>.sent ()) := by
  have hrun : Run helloExchange (trace helloExchange initial twoAtOnce)
      (replay helloExchange initial twoAtOnce) := path_of_accepts twoAtOnce_accepted
  obtain ⟨_, _, answered, henq, hall⟩ := served_in_order (c := ()) hrun rfl twoAtOnce_byNp
  have hboth : enqueued () (trace helloExchange initial twoAtOnce) =
      [helloMessage "a", helloMessage "b"] := rfl
  have hidle : (replay helloExchange initial twoAtOnce).working () = [] := rfl
  have hempty : (replay helloExchange initial twoAtOnce).down () = [] := rfl
  rw [hboth, hidle, hempty, List.append_nil, List.append_nil] at henq
  rwa [henq]

theorem requester_sees_hello :
    ∃ response, forward plainHttp unlimited .empty (fun _ _ => none) "something.nport.io"
        (some (.answer (helloAnswer "a"))) = some (.relayed response) ∧
      response.status = 200 ∧ response.body = .ok [104, 105] := by
  have hrun : Run helloExchange _ _ := path_of_accepts twoAtOnce_accepted
  have hseen := requester_sees (fun _ => rfl) unlimited .empty (fun _ _ => none) hrun
    twoAtOnce_byNp (k := false) (r := helloAnswer "a") (c := ()) rfl rfl rfl
  refine ⟨_, rfl, ?_⟩
  cases hseen with
  | relayed _ _ hforwarded hserved hrelayed =>
    cases hserved
    exact ⟨hrelayed.status, hrelayed.body.trans (congrArg _ hforwarded.body)⟩

end Concrete

end HttpService
