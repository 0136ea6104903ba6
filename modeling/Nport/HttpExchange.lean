import Nport.GuardedMachine
import Nport.HttpForward
import Mathlib.Logic.Function.Basic
import Mathlib.Data.List.Count
import Mathlib.Data.Fintype.Basic

/-! The HTTP exchange of the server with any number of clients: forward calls, each with a
drawn uuid and a oneshot, and http_requests, where a client's answer finds the sender.
An honest client answers every request it takes once, with the uuid of the request, as
dispatch::http::request does; any other client may send any HttpResponse at any time. -/
namespace HttpExchange

open GuardedMachine
open HttpForward

inductive Call where
  | idle
  /-- get_by_http_hostname has returned a client -/
  | found
  /-- register_http_request is done, the request is not sent yet -/
  | registered
  /-- in timeout(response_timeout, rx) -/
  | waiting
  | finished
  deriving DecidableEq, Repr

structure State (C K : Type*) where
  phase : K → Call
  handler : K → Option C
  uuid : K → Option String
  /-- what the oneshot of the call holds -/
  slot : K → Option HttpResponse
  obtained : K → Option HttpResponse
  /-- http_requests of each client, with the call that owns the receiver -/
  httpRequests : C → String → Option K
  /-- the loop of handle_socket -/
  running : C → Bool
  down : C → List HttpRequest
  /-- requests the client has taken and not answered -/
  working : C → List HttpRequest
  up : C → List HttpResponse
  /-- history: all the answers the client has put on its websocket -/
  sent : C → List HttpResponse

inductive Event (C K : Type*) where
  | lookup (k : K) (c : Option C)
  | register (k : K) (uuid : String)
  -- a send that fails or is given up halfway may still have put the frame on the websocket
  | enqueue (k : K) (request : HttpRequest) (ok reached : Bool)
  | receive (k : K)
  | timeout (k : K)
  /-- rx fails: the sender was dropped with its client -/
  | recvError (k : K)
  /-- the HTTP requester goes away and the handler is dropped -/
  | cancel (k : K)
  /-- the session loop takes the next HttpResponse: send_http_response -/
  | sendHttpResponse (c : C)
  | disconnect (c : C)
  /-- the last reference to the Client is dropped, and http_requests with it -/
  | drop (c : C)
  | take (c : C)
  | answer (c : C) (uuid : String) (payload : Option Payload) (reached : Bool)
  | forge (c : C) (response : HttpResponse)

variable {C K : Type*}

def initial : State C K :=
  ⟨fun _ => .idle, fun _ => none, fun _ => none, fun _ => none, fun _ => none,
    fun _ _ => none, fun _ => true, fun _ => [], fun _ => [], fun _ => [], fun _ => []⟩

/-- The receiver of the call's oneshot exists. -/
def Call.listens : Call → Bool
  | .registered | .waiting => true
  | _ => false

def Enabled [DecidableEq K] (honest : C → Bool) (s : State C K) : Event C K → Prop
  | .lookup k _ => s.phase k = .idle
  | .register k uuid => s.phase k = .found ∧ ∀ k', s.uuid k' ≠ some uuid
  | .enqueue k request ok reached => s.phase k = .registered ∧ s.uuid k = some request.uuid ∧
      (ok = true → reached = true)
  | .receive k => s.phase k = .waiting ∧ s.slot k ≠ none
  | .timeout k => s.phase k = .waiting
  | .recvError k => s.phase k = .waiting ∧ s.slot k = none ∧
      ((s.handler k).all fun c => (s.uuid k).all fun u => s.httpRequests c u ≠ some k) = true
  | .cancel k => s.phase k ≠ .idle ∧ s.phase k ≠ .finished
  | .sendHttpResponse c => s.running c = true ∧ s.up c ≠ []
  | .disconnect c => s.running c = true
  | .drop c => s.running c = false ∧
      ∀ k, s.handler k = some c → s.phase k ≠ .found ∧ s.phase k ≠ .registered
  | .take c => honest c = true ∧ s.down c ≠ []
  | .answer c uuid _ _ => honest c = true ∧ (s.working c).any (·.uuid = uuid) = true
  | .forge c _ => honest c = false

variable [DecidableEq C] [DecidableEq K]

/-- client::Error, as far as the HTTP exchange meets it. -/
inductive ClientError where
  | noRequest
  deriving DecidableEq, Repr

/-- Client::send_http_response: the entry is removed whatever becomes of the response. -/
def sendHttpResponse (s : State C K) (c : C) (response : HttpResponse) :
    Except ClientError (State C K) :=
  match s.httpRequests c response.uuid with
  | some k => .ok { s with
      httpRequests := Function.update s.httpRequests c
        (Function.update (s.httpRequests c) response.uuid none)
      slot := if (s.phase k).listens then Function.update s.slot k (some response)
        else s.slot }
  | none => .error .noRequest

def next (s : State C K) : Event C K → State C K
  | .lookup k c => { s with
      phase := Function.update s.phase k (if c.isSome then .found else .finished)
      handler := Function.update s.handler k c }
  | .register k uuid =>
    match s.handler k with
    | some c => { s with
        phase := Function.update s.phase k .registered
        uuid := Function.update s.uuid k (some uuid)
        httpRequests := Function.update s.httpRequests c
          (Function.update (s.httpRequests c) uuid (some k)) }
    | none => s
  | .enqueue k request ok reached =>
    match s.handler k with
    | some c => { s with
        phase := Function.update s.phase k (if ok then .waiting else .finished)
        down := if reached then Function.update s.down c (s.down c ++ [request]) else s.down }
    | none => s
  -- timeout polls rx once more at the deadline, so either may come with the slot full
  | .receive k => { s with
      phase := Function.update s.phase k .finished
      obtained := Function.update s.obtained k (s.slot k) }
  | .timeout k | .recvError k | .cancel k => { s with
      phase := Function.update s.phase k .finished }
  | .sendHttpResponse c =>
    match s.up c with
    | [] => s
    | response :: rest =>
      let s := { s with up := Function.update s.up c rest }
      match sendHttpResponse s c response with
      | .ok t => t
      -- msg passes the error on and the loop of handle_socket breaks
      | .error _ => { s with running := Function.update s.running c false }
  | .disconnect c => { s with running := Function.update s.running c false }
  | .drop c => { s with httpRequests := Function.update s.httpRequests c fun _ => none }
  | .take c =>
    match s.down c with
    | [] => s
    | request :: rest => { s with
        down := Function.update s.down c rest
        working := Function.update s.working c (s.working c ++ [request]) }
  | .answer c uuid payload reached => { s with
      working := Function.update s.working c ((s.working c).eraseP (·.uuid = uuid))
      up := if reached then Function.update s.up c (s.up c ++ [⟨uuid, payload⟩]) else s.up
      sent := Function.update s.sent c (s.sent c ++ [⟨uuid, payload⟩]) }
  | .forge c response => { s with
      up := Function.update s.up c (s.up c ++ [response])
      sent := Function.update s.sent c (s.sent c ++ [response]) }

def exchange (honest : C → Bool) : Machine (State C K) (Event C K) :=
  ⟨initial, Enabled honest, next⟩

omit [DecidableEq C] in
/-- np is one of the honest clients: whatever path send_request takes, request sends an
answer to the request it was given. -/
theorem request_answers {N V M : Type*} [DecidableEq N] (lib : HttpLib N V M)
    (httpPort : String → Option Libnp.Addr)
    (fetch : Request N V M → Except String (Response N V)) {honest : C → Bool}
    {s : State C K} {c : C} {req : HttpRequest} (hc : honest c = true)
    (hw : req ∈ s.working c) (reached : Bool) :
    Enabled honest s (.answer c (request lib httpPort fetch req).uuid
      (request lib httpPort fetch req).payload reached) :=
  ⟨hc, List.any_eq_true.mpr ⟨req, hw, by simp [request]⟩⟩

/-- The response came from the client the call was given, with the uuid drawn for it. -/
def Own (s : State C K) (k : K) (r : HttpResponse) : Prop :=
  ∃ c, s.handler k = some c ∧ s.uuid k = some r.uuid ∧ r ∈ s.sent c

structure Invariant (s : State C K) : Prop where
  entries : ∀ c u k, s.httpRequests c u = some k → s.handler k = some c ∧ s.uuid k = some u
  slots : ∀ k r, s.slot k = some r → Own s k r
  taken : ∀ k r, s.obtained k = some r → Own s k r ∧ s.phase k = .finished
  wires : ∀ c, ∀ r ∈ s.up c, r ∈ s.sent c
  distinct : ∀ k k' u, s.uuid k = some u → s.uuid k' = some u → k = k'
  unknown : ∀ k, s.phase k = .idle ∨ s.phase k = .found → s.uuid k = none
  unfound : ∀ k, s.phase k = .idle → s.handler k = none
  found : ∀ k, s.phase k = .found ∨ s.phase k = .registered → s.handler k ≠ none

omit [DecidableEq C] [DecidableEq K] in
theorem initial_invariant : Invariant (initial : State C K) := by
  constructor <;> simp [initial]

variable {honest : C → Bool} {s t : State C K} {e : Event C K}

inductive Step (honest : C → Bool) (s : State C K) : Event C K → State C K → Prop where
  | lookup (k c) : s.phase k = .idle → Step honest s (.lookup k c) { s with
      phase := Function.update s.phase k (if c.isSome then .found else .finished)
      handler := Function.update s.handler k c }
  | register (k c u) : s.phase k = .found → (∀ k', s.uuid k' ≠ some u) →
      s.handler k = some c → Step honest s (.register k u) { s with
        phase := Function.update s.phase k .registered
        uuid := Function.update s.uuid k (some u)
        httpRequests := Function.update s.httpRequests c
          (Function.update (s.httpRequests c) u (some k)) }
  | enqueue (k c request ok reached) : s.phase k = .registered →
      s.uuid k = some request.uuid → s.handler k = some c →
      Step honest s (.enqueue k request ok reached) { s with
        phase := Function.update s.phase k (if ok then .waiting else .finished)
        down := if reached then Function.update s.down c (s.down c ++ [request]) else s.down }
  | receive (k) : s.phase k = .waiting → Step honest s (.receive k) { s with
      phase := Function.update s.phase k .finished
      obtained := Function.update s.obtained k (s.slot k) }
  | finished (k e) : e = .timeout k ∨ e = .recvError k ∨ e = .cancel k → s.phase k ≠ .finished →
      Step honest s e { s with phase := Function.update s.phase k .finished }
  | delivered (c response rest k) : s.running c = true → s.up c = response :: rest →
      s.httpRequests c response.uuid = some k → Step honest s (.sendHttpResponse c) { s with
        up := Function.update s.up c rest
        httpRequests := Function.update s.httpRequests c
          (Function.update (s.httpRequests c) response.uuid none)
        slot := if (s.phase k).listens then Function.update s.slot k (some response)
          else s.slot }
  | noRequest (c response rest) : s.running c = true → s.up c = response :: rest →
      s.httpRequests c response.uuid = none → Step honest s (.sendHttpResponse c) { s with
        up := Function.update s.up c rest
        running := Function.update s.running c false }
  | disconnect (c) : Step honest s (.disconnect c) { s with
      running := Function.update s.running c false }
  | drop (c) : s.running c = false → Step honest s (.drop c) { s with
      httpRequests := Function.update s.httpRequests c fun _ => none }
  | take (c request rest) : s.down c = request :: rest → Step honest s (.take c) { s with
      down := Function.update s.down c rest
      working := Function.update s.working c (s.working c ++ [request]) }
  | answer (c uuid payload reached) : (s.working c).any (·.uuid = uuid) = true →
      Step honest s (.answer c uuid payload reached) { s with
        working := Function.update s.working c ((s.working c).eraseP (·.uuid = uuid))
        up := if reached then Function.update s.up c (s.up c ++ [⟨uuid, payload⟩]) else s.up
        sent := Function.update s.sent c (s.sent c ++ [⟨uuid, payload⟩]) }
  | forge (c response) : honest c = false → Step honest s (.forge c response) { s with
      up := Function.update s.up c (s.up c ++ [response])
      sent := Function.update s.sent c (s.sent c ++ [response]) }

theorem next_step (h : Invariant s) (he : Enabled honest s e) : Step honest s e (next s e) := by
  cases e with
  | lookup k c => exact .lookup k c he
  | register k u =>
    obtain ⟨c, hc⟩ := Option.ne_none_iff_exists'.mp (h.found k (Or.inl he.1))
    simpa [next, hc] using Step.register k c u he.1 he.2 hc
  | enqueue k request ok reached =>
    obtain ⟨c, hc⟩ := Option.ne_none_iff_exists'.mp (h.found k (Or.inr he.1))
    simpa [next, hc] using Step.enqueue k c request ok reached he.1 he.2.1 hc
  | receive k => exact .receive k he.1
  | timeout k => exact .finished k _ (by simp) (by simp [show s.phase k = .waiting from he])
  | recvError k => exact .finished k _ (by simp) (by simp [he.1])
  | cancel k => exact .finished k _ (by simp) he.2
  | sendHttpResponse c =>
    obtain ⟨hr, hu⟩ := he
    obtain ⟨response, rest, hu⟩ := List.exists_cons_of_ne_nil hu
    cases hk : s.httpRequests c response.uuid with
    | none => simpa [next, hu, sendHttpResponse, hk] using Step.noRequest c response rest hr hu hk
    | some k =>
      simpa [next, hu, sendHttpResponse, hk] using Step.delivered c response rest k hr hu hk
  | disconnect c => exact .disconnect c
  | drop c => exact .drop c he.1
  | take c =>
    obtain ⟨request, rest, hd⟩ := List.exists_cons_of_ne_nil he.2
    simpa [next, hd] using Step.take c request rest hd
  | answer c uuid payload reached => exact .answer c uuid payload reached he.2
  | forge c response => exact .forge c response he

/-! A call keeps the client and the uuid it was given, and the histories only grow. -/

theorem Step.handler_kept (h : Step honest s e t) (hi : Invariant s) {k : K} {c : C}
    (hk : s.handler k = some c) : t.handler k = some c := by
  cases h with
  | lookup k' _ hp =>
    have hne : k ≠ k' := by
      rintro rfl
      rw [hi.unfound k hp] at hk
      cases hk
    simpa [hne] using hk
  | register | enqueue | receive | finished | delivered | noRequest | disconnect | drop | take
  | answer | forge => exact hk

theorem Step.uuid_kept (h : Step honest s e t) (hi : Invariant s) {k : K} {u : String}
    (hk : s.uuid k = some u) : t.uuid k = some u := by
  cases h with
  | register k' _ _ hp =>
    have hne : k ≠ k' := by
      rintro rfl
      rw [hi.unknown k (Or.inr hp)] at hk
      cases hk
    simpa [hne] using hk
  | lookup | enqueue | receive | finished | delivered | noRequest | disconnect | drop | take
  | answer | forge => exact hk

theorem Step.sent_grows (h : Step honest s e t) (c : C) : s.sent c ⊆ t.sent c := by
  cases h with
  | answer d | forge d =>
    by_cases hd : c = d
    · subst hd; simp
    · simp [hd]
  | lookup | register | enqueue | receive | finished | delivered | noRequest | disconnect | drop
  | take => exact List.Subset.refl _

theorem Step.own (h : Step honest s e t) (hi : Invariant s) {k : K} {r : HttpResponse}
    (hr : Own s k r) : Own t k r := by
  obtain ⟨c, hc, hu, hm⟩ := hr
  exact ⟨c, h.handler_kept hi hc, h.uuid_kept hi hu, h.sent_grows c hm⟩

inductive CallStep (s t : State C K) (k : K) : Prop where
  | kept : t.phase k = s.phase k → t.uuid k = s.uuid k → t.handler k = s.handler k →
      CallStep s t k
  | looked : s.phase k = .idle → t.uuid k = s.uuid k →
      t.phase k = (if (t.handler k).isSome then .found else .finished) → CallStep s t k
  | registered (u) : s.phase k = .found → t.phase k = .registered →
      t.handler k = s.handler k → (∀ k', s.uuid k' ≠ some u) → t.uuid k = some u →
      (∀ k', k' ≠ k → t.uuid k' = s.uuid k') →
      (∀ c, t.handler k = some c → t.httpRequests c u = some k) → CallStep s t k
  | left : s.phase k = .registered ∧ t.phase k = .waiting ∨ t.phase k = .finished →
      t.uuid k = s.uuid k → t.handler k = s.handler k → CallStep s t k

theorem Step.call (h : Step honest s e t) (k : K) : CallStep s t k := by
  cases h with
  | lookup k' c hp =>
    by_cases hk : k = k'
    · subst hk; exact .looked hp rfl (by simp)
    · exact .kept (by simp [hk]) rfl (by simp [hk])
  | register k' c u hp hfresh hd =>
    by_cases hk : k = k'
    · subst hk
      refine .registered u hp (by simp) rfl hfresh (by simp) (fun k' hne => by simp [hne]) ?_
      intro d hd'
      obtain rfl : c = d := by simpa [hd] using hd'
      simp
    · exact .kept (by simp [hk]) (by simp [hk]) rfl
  | enqueue k' c request ok reached hp _ _ =>
    by_cases hk : k = k'
    · subst hk; exact .left (by cases ok <;> simp [hp]) rfl rfl
    · exact .kept (by simp [hk]) rfl rfl
  | receive k' | finished k' =>
    by_cases hk : k = k'
    · subst hk; exact .left (by simp) rfl rfl
    · exact .kept (by simp [hk]) rfl rfl
  | delivered | noRequest | disconnect | drop | take | answer | forge => exact .kept rfl rfl rfl

theorem Step.finished_kept (h : Step honest s e t) {k : K} (hk : s.phase k = .finished) :
    t.phase k = .finished := by
  cases h.call k with
  | kept hp => exact hp.trans hk
  | looked hp | registered _ hp => simp [hk] at hp
  | left hp _ _ => simpa [hk] using hp

theorem Step.uuid_origin (h : Step honest s e t) {k : K} {u : String} (hk : t.uuid k = some u) :
    s.uuid k = some u ∨
      ((∀ k', s.uuid k' ≠ some u) ∧ ∀ k', k' ≠ k → t.uuid k' = s.uuid k') := by
  cases h.call k with
  | kept _ hu _ | looked _ hu _ | left _ hu _ => exact Or.inl (hu ▸ hk)
  | registered v _ _ _ hfresh hv hother =>
    obtain rfl : v = u := by simpa [hv] using hk
    exact Or.inr ⟨hfresh, hother⟩

theorem Step.distinct (h : Step honest s e t) (hi : Invariant s) (k k' : K) (u : String)
    (hk : t.uuid k = some u) (hk' : t.uuid k' = some u) : k = k' := by
  by_contra hne
  rcases h.uuid_origin hk with hs | ⟨hfresh, hother⟩
  · rcases h.uuid_origin hk' with hs' | ⟨hfresh, _⟩
    · exact hne (hi.distinct k k' u hs hs')
    · exact hfresh k hs
  · rw [hother k' (Ne.symm hne)] at hk'
    exact hfresh k' hk'

theorem Step.entries (h : Step honest s e t) (hi : Invariant s) (c : C) (u : String) (k : K)
    (ht : t.httpRequests c u = some k) : t.handler k = some c ∧ t.uuid k = some u := by
  have keep : s.httpRequests c u = some k → t.handler k = some c ∧ t.uuid k = some u := by
    intro hs
    obtain ⟨hc, hu⟩ := hi.entries c u k hs
    exact ⟨h.handler_kept hi hc, h.uuid_kept hi hu⟩
  cases h with
  | register k' d v _ _ hd =>
    by_cases hc : c = d
    · subst hc
      by_cases hu : u = v
      · subst hu
        obtain rfl : k' = k := by simpa using ht
        exact ⟨hd, by simp⟩
      · exact keep (by simpa [hu] using ht)
    · exact keep (by simpa [hc] using ht)
  | delivered d response _ _ _ _ _ =>
    by_cases hc : c = d
    · subst hc
      by_cases hu : u = response.uuid
      · subst hu; simp at ht
      · exact keep (by simpa [hu] using ht)
    · exact keep (by simpa [hc] using ht)
  | drop d =>
    by_cases hc : c = d
    · subst hc; simp at ht
    · exact keep (by simpa [hc] using ht)
  | lookup | enqueue | receive | finished | noRequest | disconnect | take | answer | forge =>
    exact keep ht

theorem Step.slots (h : Step honest s e t) (hi : Invariant s) (k : K) (r : HttpResponse)
    (ht : t.slot k = some r) : Own t k r := by
  have keep : s.slot k = some r → Own t k r := fun hs => h.own hi (hi.slots k r hs)
  cases h with
  | delivered c response rest k' hr hu hk =>
    by_cases hl : (s.phase k').listens = true
    · by_cases hkk : k = k'
      · subst hkk
        obtain rfl : response = r := by simpa [hl] using ht
        obtain ⟨hc, hv⟩ := hi.entries c _ k hk
        exact ⟨c, hc, hv, hi.wires c _ (by simp [hu])⟩
      · exact keep (by simpa [hl, hkk] using ht)
    · exact keep (by simpa [hl] using ht)
  | lookup | register | enqueue | receive | finished | noRequest | disconnect | drop | take
  | answer | forge => exact keep ht

theorem Step.wires (h : Step honest s e t) (hi : Invariant s) (c : C) (r : HttpResponse)
    (ht : r ∈ t.up c) : r ∈ t.sent c := by
  have keep : r ∈ s.up c → r ∈ t.sent c := fun hs => h.sent_grows c (hi.wires c r hs)
  cases h with
  | delivered d response rest _ _ hu _ | noRequest d response rest _ hu _ =>
    by_cases hc : c = d
    · subst hc
      exact keep (by rw [hu]; exact List.mem_cons_of_mem _ (by simpa using ht))
    · exact keep (by simpa [hc] using ht)
  | answer d uuid payload reached _ =>
    by_cases hc : c = d
    · subst hc
      cases reached with
      | false => exact keep ht
      | true =>
        have hr : r ∈ s.up c ∨ r = ⟨uuid, payload⟩ := by simpa using ht
        rcases hr with hs | rfl
        · exact keep hs
        · simp
    · exact keep (by cases reached <;> simpa [hc] using ht)
  | forge d response _ =>
    by_cases hc : c = d
    · subst hc
      have hr : r ∈ s.up c ∨ r = response := by simpa using ht
      rcases hr with hs | rfl
      · exact keep hs
      · simp
    · exact keep (by simpa [hc] using ht)
  | lookup | register | enqueue | receive | finished | disconnect | drop | take => exact keep ht

theorem Step.taken (h : Step honest s e t) (hi : Invariant s) (k : K) (r : HttpResponse)
    (ht : t.obtained k = some r) : Own t k r ∧ t.phase k = .finished := by
  have keep : s.obtained k = some r → Own t k r ∧ t.phase k = .finished := by
    intro hs
    obtain ⟨ho, hp⟩ := hi.taken k r hs
    exact ⟨h.own hi ho, h.finished_kept hp⟩
  cases h with
  | receive k' hw =>
    by_cases hk : k = k'
    · subst hk
      have hslot : s.slot k = some r := by simpa using ht
      exact ⟨(hi.slots k r hslot), by simp⟩
    · exact keep (by simpa [hk] using ht)
  | lookup | register | enqueue | finished | delivered | noRequest | disconnect | drop | take
  | answer | forge => exact keep ht

theorem step_invariant (hi : Invariant s) (h : Step honest s e t) : Invariant t := by
  refine ⟨h.entries hi, h.slots hi, h.taken hi, h.wires hi, h.distinct hi, ?_, ?_, ?_⟩
  · intro k hp
    cases h.call k with
    | kept hph hu _ => rw [hu]; exact hi.unknown k (hph ▸ hp)
    | looked hidle hu _ => rw [hu]; exact hi.unknown k (Or.inl hidle)
    | registered _ _ hq => simp [hq] at hp
    | left hq => rcases hq with ⟨_, hq⟩ | hq <;> simp [hq] at hp
  · intro k hp
    cases h.call k with
    | kept hph _ hc => rw [hc]; exact hi.unfound k (hph ▸ hp)
    | looked _ _ hph => rw [hph] at hp; split at hp <;> cases hp
    | registered _ _ hq => simp [hq] at hp
    | left hq => rcases hq with ⟨_, hq⟩ | hq <;> simp [hq] at hp
  · intro k hp
    cases h.call k with
    | kept hph _ hc => rw [hc]; exact hi.found k (hph ▸ hp)
    | looked _ _ hph =>
      intro hn
      simp [hph, hn] at hp
    | registered _ hq _ hc => rw [hc]; exact hi.found k (Or.inl hq)
    | left hq => rcases hq with ⟨_, hq⟩ | hq <;> simp [hq] at hp

theorem reachable_invariant (h : Reachable (exchange honest) s) : Invariant s :=
  Reachable.invariant (M := exchange honest) initial_invariant
    (fun _ _ hi he => step_invariant hi (next_step hi he)) h

/-! The request of an honest client as a token: HttpRequest on its way, being worked on, or
HttpResponse on its way back. As long as it exists, http_requests has its entry. -/

def tokens (s : State C K) (c : C) (u : String) : ℕ :=
  (s.down c).countP (·.uuid = u) + (s.working c).countP (·.uuid = u) +
    (s.up c).countP (·.uuid = u)

structure Pending (s : State C K) (c : C) : Prop where
  unique : ∀ u, tokens s c u ≤ 1
  awaited : ∀ u, s.running c = true → 0 < tokens s c u → ∃ k, s.httpRequests c u = some k
  unsent : ∀ k u, s.phase k = .registered → s.handler k = some c → s.uuid k = some u →
    tokens s c u = 0 ∧ (s.running c = true → s.httpRequests c u = some k)
  drawn : ∀ u, 0 < tokens s c u → ∃ k, s.uuid k = some u

omit [DecidableEq C] [DecidableEq K] in
theorem initial_pending (c : C) : Pending (initial : State C K) c := by
  constructor <;> simp [initial, tokens]

theorem countP_eraseP_answer {l : List HttpRequest} {u : String}
    (h : l.any (·.uuid = u) = true) (v : String) :
    (l.eraseP (·.uuid = u)).countP (·.uuid = v) + (if u = v then 1 else 0) =
      l.countP (·.uuid = v) := by
  obtain ⟨x, hx, hu⟩ := List.any_eq_true.mp h
  obtain ⟨a, front, back, _, ha, hl, hr⟩ :=
    List.exists_of_eraseP (p := fun q : HttpRequest => decide (q.uuid = u)) hx hu
  have ha : a.uuid = u := by simpa using ha
  rw [hr, hl]
  simp only [List.countP_append, List.countP_cons, ha, decide_eq_true_eq]
  omega

theorem Step.tokens_next (h : Step honest s e t) (c : C) (hc : honest c = true) (u : String) :
    tokens t c u ≤ tokens s c u ∨
      ∃ k, s.phase k = .registered ∧ s.handler k = some c ∧ s.uuid k = some u ∧
        tokens t c u ≤ tokens s c u + 1 ∧ t.phase k ≠ .registered := by
  cases h with
  | enqueue k d request ok reached hp hu hd =>
    cases reached with
    | false => left; exact Nat.le_refl _
    | true =>
      by_cases hcd : c = d
      · subst hcd
        by_cases hr : request.uuid = u
        · subst hr
          right
          refine ⟨k, hp, hd, hu, ?_, by cases ok <;> simp⟩
          simp [tokens, List.countP_append]
          omega
        · left; simp [tokens, List.countP_append, hr]
      · left; simp [tokens, hcd]
  | delivered d response rest _ _ hu _ | noRequest d response rest _ hu _ =>
    left
    by_cases hcd : c = d
    · subst hcd; simp [tokens, hu, List.countP_cons]
    · simp [tokens, hcd]
  | take d request rest hd =>
    left
    by_cases hcd : c = d
    · subst hcd
      simp only [tokens, Function.update_self, hd, List.countP_append, List.countP_cons,
        List.countP_nil]
      omega
    · simp [tokens, hcd]
  | answer d uuid payload reached hw =>
    left
    by_cases hcd : c = d
    · subst hcd
      have hcount := countP_eraseP_answer hw u
      cases reached with
      | false => simp only [tokens, Function.update_self]; simp; omega
      | true =>
        simp only [tokens, Function.update_self, if_true, List.countP_append, List.countP_singleton,
          decide_eq_true_eq]
        omega
    · cases reached <;> simp [tokens, hcd]
  | forge d _ hf =>
    have hcd : c ≠ d := by rintro rfl; simp [hf] at hc
    left; simp [tokens, hcd]
  | lookup | register | receive | finished | disconnect | drop => left; exact Nat.le_refl _

theorem Step.entry_next (h : Step honest s e t) (c : C) (u : String)
    (hr : t.running c = true) :
    t.httpRequests c u = s.httpRequests c u ∨
      (∃ k, t.httpRequests c u = some k ∧ t.uuid k = some u ∧ ∀ k', s.uuid k' ≠ some u) ∨
      tokens t c u + 1 = tokens s c u := by
  cases h with
  | register k d v _ hfresh _ =>
    by_cases hcd : c = d
    · subst hcd
      by_cases hu : u = v
      · subst hu; right; left; exact ⟨k, by simp, by simp, hfresh⟩
      · left; simp [hu]
    · left; simp [hcd]
  | delivered d response rest _ _ hup _ =>
    by_cases hcd : c = d
    · subst hcd
      by_cases hu : u = response.uuid
      · subst hu
        right; right
        simp only [tokens, hup, Function.update_self, List.countP_cons, decide_true, if_true]
        omega
      · left; simp [hu]
    · left; simp [hcd]
  | drop d hd =>
    have hcd : c ≠ d := by rintro rfl; simp [hd] at hr
    left; simp [hcd]
  | lookup | enqueue | receive | finished | noRequest | disconnect | take | answer | forge =>
    left; rfl

theorem Step.running_before (h : Step honest s e t) (c : C) (hr : t.running c = true) :
    s.running c = true := by
  cases h with
  | noRequest d | disconnect d =>
    by_cases hcd : c = d
    · subst hcd; simp at hr
    · simpa [hcd] using hr
  | lookup | register | enqueue | receive | finished | delivered | drop | take | answer | forge =>
    exact hr

omit [DecidableEq C] [DecidableEq K] in
theorem Pending.fresh {c : C} (hp : Pending s c) {u : String} (hu : ∀ k, s.uuid k ≠ some u) :
    tokens s c u = 0 := by
  by_contra hne
  obtain ⟨k, hk⟩ := hp.drawn u (by omega)
  exact hu k hk

theorem step_pending {c : C} (hc : honest c = true) (hi : Invariant s) (hp : Pending s c)
    (h : Step honest s e t) : Pending t c := by
  refine ⟨?_, ?_, ?_, ?_⟩
  · intro u
    have hle := hp.unique u
    rcases h.tokens_next c hc u with ht | ⟨k, hk, hd, hu, ht, _⟩
    · omega
    · have hz := (hp.unsent k u hk hd hu).1
      omega
  · intro u hr hone
    have hle := hp.unique u
    have hs := h.running_before c hr
    have hbefore : ∃ k, s.httpRequests c u = some k := by
      rcases h.tokens_next c hc u with ht | ⟨k, hk, hd, hu, _⟩
      · exact hp.awaited u hs (by omega)
      · exact ⟨k, (hp.unsent k u hk hd hu).2 hs⟩
    rcases h.entry_next c u hr with hsame | ⟨k, hk, _⟩ | hlost
    · rw [hsame]; exact hbefore
    · exact ⟨k, hk⟩
    · omega
  · intro k u hreg hd hu
    cases h.call k with
    | kept hph hsame hd' =>
      rw [hph] at hreg
      rw [hsame] at hu
      rw [hd'] at hd
      obtain ⟨hz, hentry⟩ := hp.unsent k u hreg hd hu
      have hzero : tokens t c u = 0 := by
        rcases h.tokens_next c hc u with ht | ⟨k', _, _, hu', _, hleft⟩
        · omega
        · obtain rfl := hi.distinct k k' u hu hu'
          exact absurd (hph.trans hreg) hleft
      refine ⟨hzero, fun hr => ?_⟩
      rcases h.entry_next c u hr with hkeep | ⟨_, _, _, hfresh⟩ | hlost
      · rw [hkeep]; exact hentry (h.running_before c hr)
      · exact absurd hu (hfresh k)
      · omega
    | looked _ _ hph => rw [hph] at hreg; split at hreg <;> cases hreg
    | registered v _ _ _ hfresh hv _ hentry =>
      obtain rfl : v = u := by simpa [hv] using hu
      have hz := hp.fresh hfresh
      refine ⟨?_, fun _ => hentry c hd⟩
      rcases h.tokens_next c hc v with ht | ⟨k', _, _, hu', _⟩
      · omega
      · exact absurd hu' (hfresh k')
    | left hq => rcases hq with ⟨_, hq⟩ | hq <;> simp [hq] at hreg
  · intro u hone
    rcases h.tokens_next c hc u with ht | ⟨k, _, _, hu, _⟩
    · obtain ⟨k, hk⟩ := hp.drawn u (by omega)
      exact ⟨k, h.uuid_kept hi hk⟩
    · exact ⟨k, h.uuid_kept hi hu⟩

theorem reachable_pending {c : C} (hc : honest c = true) (h : Reachable (exchange honest) s) :
    Invariant s ∧ Pending s c :=
  Reachable.invariant (M := exchange honest) (I := fun s => Invariant s ∧ Pending s c)
    ⟨initial_invariant, initial_pending c⟩
    (fun _ _ hi he =>
      have hs := next_step hi.1 he
      ⟨step_invariant hi.1 hs, step_pending hc hi.1 hi.2 hs⟩) h

theorem Pending.found {c : C} (hp : Pending s c) {response : HttpResponse}
    {rest : List HttpResponse} (hr : s.running c = true) (hu : s.up c = response :: rest) :
    sendHttpResponse s c response ≠ .error .noRequest := by
  have hone : 0 < tokens s c response.uuid := by
    simp only [tokens, hu, List.countP_cons, decide_true, if_true]
    omega
  obtain ⟨k, hk⟩ := hp.awaited response.uuid hr hone
  simp [sendHttpResponse, hk]

def isReceive (k : K) : Event C K → Bool
  | .receive k' => k' = k
  | _ => false

/-- A forward call obtains at most one response, from the client it was given and with the
uuid drawn for it; an honest client is never told NoRequest. -/
theorem response_routing {tr : List (State C K × Event C K)} (h : Run (exchange honest) tr s) :
    (∀ k, tr.countP (fun p => isReceive k p.2) ≤ 1) ∧
    (∀ k r, s.obtained k = some r →
      ∃ c, s.handler k = some c ∧ s.uuid k = some r.uuid ∧ r ∈ s.sent c) ∧
    ∀ c, honest c = true → ∀ p ∈ tr, p.2 = .sendHttpResponse c →
      ∀ response rest, p.1.up c = response :: rest →
        sendHttpResponse p.1 c response ≠ .error .noRequest := by
  refine ⟨?_, ?_, ?_⟩
  · intro k
    refine (Path.fires_at_most_once (L := fun s => s.phase k = .finished) h ?_ ?_).1
    · rintro ⟨u, e⟩ _ he hf
      cases e with
      | receive k' =>
        obtain rfl : k' = k := by simpa [isReceive] using hf
        have hw : u.phase k' = .waiting := he.1
        exact ⟨by simp [hw], by simp [exchange, next]⟩
      | _ => simp [isReceive] at hf
    · intro p hp hfin
      obtain ⟨he, before, _, hb⟩ := Path.step_mem h p hp
      exact (next_step (reachable_invariant ⟨before, hb⟩) he).finished_kept hfin
  · intro k r hr
    exact ((reachable_invariant ⟨tr, h⟩).taken k r hr).1
  · intro c hc p hp hsend response rest hu
    obtain ⟨he, before, _, hb⟩ := Path.step_mem h p hp
    rw [hsend] at he
    exact (reachable_pending hc ⟨before, hb⟩).2.found he.1 hu

instance [Fintype K] (s : State C K) (e : Event C K) : Decidable (Enabled honest s e) := by
  cases e <;> simp only [Enabled] <;> infer_instance

instance [Fintype K] (s : State C K) (e : Event C K) :
    Decidable ((exchange honest).Enabled s e) :=
  inferInstanceAs (Decidable (Enabled honest s e))

def bare (uuid : String) : HttpRequest := ⟨uuid, "", none, .http, "GET", "/", ∅, none⟩

def answersLate : List (Event Unit Bool) :=
  [.lookup false (some ()), .register false "a", .enqueue false (bare "a") true true,
    .lookup true (some ()), .register true "b", .enqueue true (bare "b") true true,
    .take (), .take (), .timeout false, .answer () "a" none true, .answer () "b" none true,
    .sendHttpResponse (), .sendHttpResponse (), .receive true]

theorem response_routing_answers_late :
    (∃ c, (replay (exchange fun _ : Unit => true) initial answersLate).handler true = some c ∧
      ⟨"b", none⟩ ∈ (replay (exchange fun _ : Unit => true) initial answersLate).sent c) ∧
    ∀ p ∈ trace (exchange fun _ : Unit => true) initial answersLate,
      p.2 = .sendHttpResponse () → ∀ response rest, p.1.up () = response :: rest →
        sendHttpResponse p.1 () response ≠ .error .noRequest := by
  have accepted : Accepts (exchange fun _ : Unit => true) initial answersLate := by decide
  obtain ⟨_, own, honest⟩ := response_routing (path_of_accepts accepted)
  refine ⟨?_, honest () rfl⟩
  obtain ⟨c, hc, _, hr⟩ := own true ⟨"b", none⟩ rfl
  exact ⟨c, hc, hr⟩

end HttpExchange
