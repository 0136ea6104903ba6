import Nport.LocalUrl

/-! The effective request URI on its way from a listener of the server to the local service:
OriginalUri, the scheme and the uri of the message, and the URL np makes of them. The
scheme comes from a flag of the state that each listener was started with. -/
namespace RequestTarget

open Libnp
open Multimap
open PortTask (Bytes)
open UriSyntax
open HttpForward (HttpLib HttpRequest HttpScheme enqueueRequest)
open LocalUrl

/-- server::state::AppState, of its fields the one that differs between the listeners. -/
structure AppState where
  viaTls : Bool

def AppState.new : AppState := ⟨false⟩

def AppState.withTls (_ : AppState) : AppState := ⟨true⟩

inductive Listener where
  | http
  | https
  deriving DecidableEq, Repr

/-- run_http passes its state on, run_https one with_tls. -/
def Listener.state : Listener → AppState
  | .http => .new
  | .https => AppState.new.withTls

/-- The scheme and authority of an absolute-form. -/
structure Prefix where
  scheme : List Char
  authority : List Char
  scheme_chars : ∀ c ∈ scheme, isDelimiter c = false
  authority_chars : ∀ c ∈ authority, isDelimiter c = false

def Prefix.text (p : Prefix) : List Char := p.scheme ++ "://".toList ++ p.authority

inductive Target where
  | origin (form : OriginForm)
  | absolute (before : Prefix) (form : OriginForm)

def Target.form : Target → OriginForm
  | .origin form => form
  | .absolute _ form => form

/-- OriginalUri as a string. -/
def Target.text : Target → List Char
  | .origin form => form.text
  | .absolute before form => before.text ++ form.text

def Carried (target : Target) (url : String) : Prop :=
  path (url.toList.drop 7) = target.form.path ∧ query (url.toList.drop 7) = target.form.query

variable {N V M : Type*}

theorem enqueueRequest_sent (lib : HttpLib N V M) (isLoopback : String → Bool)
    (listener : Listener) (uuid hostname : String) (client : String × UInt16) (method : M)
    (target : Target) (headers : Grouped N V) (body : Bytes) :
    ∃ msg, enqueueRequest lib isLoopback listener.state.viaTls uuid hostname client method
        (String.ofList target.text) headers body = some msg ∧
      msg.uri = String.ofList target.text ∧
      (msg.scheme = .https ↔ listener = .http) := by
  refine ⟨_, by rw [enqueueRequest, HeaderSurvival.resolveNames_intoIter, Option.map_some], rfl,
    ?_⟩
  cases listener <;> simp [Listener.state, AppState.new, AppState.withTls]

theorem afterAuthority_url {addr : Addr} {l : List Char}
    (hhost : ∀ c ∈ (localHost addr).toList, isDelimiter c = false) :
    afterAuthority ((url addr (String.ofList l)).toList.drop 7) = afterAuthority l := by
  have hdrop : (url addr (String.ofList l)).toList.drop 7 =
      ((localHost addr).toList ++ ':' :: addr.port.toNat.repr.toList) ++ l := by
    rw [url_toList, afterScheme_eq]
    simp
  rw [hdrop, afterAuthority_append (hostPort_plain hhost)]

theorem takeWhile_form (form : OriginForm) (before : List Char)
    (h : ∀ c ∈ before, c ≠ '?' ∧ c ≠ '#') :
    ((before ++ form.text).takeWhile fun c => !(c = '?' || c = '#')) = before ++ form.path := by
  have hall : ∀ c ∈ before ++ form.path, (!(c = '?' || c = '#')) = true := by
    intro c hc
    rcases List.mem_append.mp hc with hc | hc
    · simp [h c hc]
    · simp [form.path_chars c hc]
  rw [OriginForm.text, ← List.append_assoc, List.takeWhile_append_of_pos hall]
  cases form.query <;> simp

theorem dropWhile_form (form : OriginForm) :
    (form.text.dropWhile fun c => !(c = '?' || c = '#')) =
      (match form.query with
        | some q => '?' :: q
        | none => []) := by
  have hall : ∀ c ∈ form.path, (!(c = '?' || c = '#')) = true := by
    intro c hc
    simp [form.path_chars c hc]
  rw [OriginForm.text, List.dropWhile_append_of_pos hall]
  cases form.query <;> simp

theorem afterAuthority_form (form : OriginForm) : afterAuthority form.text = form.text := by
  have hsplit := List.takeWhile_append_dropWhile (p := fun c => !isDelimiter c) (l := form.text)
  have hnil : form.text.takeWhile (fun c => !isDelimiter c) = [] := form.authority_text
  rw [hnil, List.nil_append] at hsplit
  exact hsplit

theorem path_append_form {a : List Char} (h : ∀ c ∈ a, isDelimiter c = false)
    (form : OriginForm) : path (a ++ form.text) = form.path := by
  rw [path, afterAuthority_append h, afterAuthority_form]
  simpa using takeWhile_form form [] (by simp)

theorem query_append_form {a : List Char} (h : ∀ c ∈ a, isDelimiter c = false)
    (form : OriginForm) : query (a ++ form.text) = form.query := by
  rw [query, afterAuthority_append h, afterAuthority_form, dropWhile_form]
  cases hq : form.query with
  | none => rfl
  | some q =>
    have hsame : q.takeWhile (· ≠ '#') = q :=
      List.takeWhile_eq_self_iff.mpr (forall_ne_of_not_mem (form.query_chars q hq))
    simp only [hsame]

theorem Prefix.scheme_plain (before : Prefix) :
    ∀ c ∈ before.scheme ++ [':'], isDelimiter c = false := by
  intro c hc
  rcases List.mem_append.mp hc with hc | hc
  · exact before.scheme_chars c hc
  · obtain rfl : c = ':' := by simpa using hc
    rfl

theorem afterAuthority_absolute (before : Prefix) (form : OriginForm) :
    afterAuthority (before.text ++ form.text) = "//".toList ++ before.authority ++ form.text := by
  have hsplit : before.text ++ form.text =
      (before.scheme ++ [':']) ++ ("//".toList ++ before.authority ++ form.text) := by
    simp [Prefix.text]
  rw [hsplit, afterAuthority_append before.scheme_plain]
  rfl

theorem carried_iff {addr : Addr} (target : Target)
    (hhost : ∀ c ∈ (localHost addr).toList, isDelimiter c = false) :
    Carried target (url addr (String.ofList target.text)) ↔ ∃ form, target = .origin form := by
  simp only [Carried, path, query, afterAuthority_url hhost]
  cases target with
  | origin form =>
    refine iff_of_true ?_ ⟨form, rfl⟩
    have hnone : ∀ c ∈ ([] : List Char), isDelimiter c = false := by simp
    exact ⟨path_append_form hnone form, query_append_form hnone form⟩
  | absolute before form =>
    refine iff_of_false ?_ (by simp)
    rintro ⟨hpath, _⟩
    simp only [Target.text, Target.form, afterAuthority_absolute] at hpath
    have hchars : ∀ c ∈ "//".toList ++ before.authority, c ≠ '?' ∧ c ≠ '#' := by
      intro c hc
      rcases List.mem_append.mp hc with hc | hc
      · obtain rfl : c = '/' := by simpa using hc
        decide
      · have hd := before.authority_chars c hc
        constructor <;> (rintro rfl; revert hd; decide)
    rw [takeWhile_form form _ hchars] at hpath
    have hlen := congrArg List.length hpath
    simp at hlen
    omega

/-- What the crate http asks of an authority: one colon at most after its last @ or ]. -/
def OneColon (lib : HttpLib N V M) : Prop :=
  ∀ url rest before after, lib.checkRequest url = .ok () → url.toList = "http://".toList ++ rest →
    authority rest = before ++ after → '@' ∉ after → ']' ∉ after → after.count ':' ≤ 1

/-- The scheme of an absolute-form comes to stand after the port, with a colon of its own. -/
theorem absolute_refused {lib : HttpLib N V M} (hlib : OneColon lib) {addr : Addr}
    (hhost : ∀ c ∈ (localHost addr).toList, isDelimiter c = false) {before : Prefix}
    (form : OriginForm) (hat : '@' ∉ before.scheme) (hbracket : ']' ∉ before.scheme) :
    ∃ e, lib.checkRequest (url addr (String.ofList (Target.absolute before form).text)) =
      .error e := by
  have hscheme : authority (Target.absolute before form).text = before.scheme ++ [':'] := by
    have hsplit : (Target.absolute before form).text =
        (before.scheme ++ [':']) ++ '/' :: '/' :: (before.authority ++ form.text) := by
      simp [Target.text, Prefix.text]
    rw [hsplit, authority_append before.scheme_plain]
    simp [authority, isDelimiter]
  have hall := authority_afterScheme addr (String.ofList (Target.absolute before form).text) hhost
  rw [String.toList_ofList, hscheme] at hall
  have hafter {c : Char} (hc : c.isDigit = false) (hcolon : c ≠ ':') (hmem : c ∉ before.scheme) :
      c ∉ ':' :: (addr.port.toNat.repr.toList ++ (before.scheme ++ [':'])) := by
    simp only [List.mem_cons, List.mem_append, List.not_mem_nil, or_false, not_or]
    refine ⟨hcolon, fun hd => ?_, hmem, hcolon⟩
    rw [isDigit_of_mem_repr hd] at hc
    cases hc
  refine exists_error_iff.mpr ?_
  rintro ⟨_, hok⟩
  have hcount := hlib _ _ _ _ hok (url_toList addr _) hall (hafter (by decide) (by decide) hat)
    (hafter (by decide) (by decide) hbracket)
  simp only [List.count_cons_self, List.count_append] at hcount
  omega

/-- No request arrives with its effective URI: the scheme says HTTPS exactly on the listener
without TLS. Path and query are carried over in origin-form only, and with an absolute-form np
builds no request. -/
theorem effective_uri_lost (lib : HttpLib N V M) (isLoopback : String → Bool)
    (listener : Listener) (uuid hostname : String) (client : String × UInt16) (method : M)
    (target : Target) (headers : Grouped N V) (body : Bytes) (addr : Addr) :
    ∃ msg, enqueueRequest lib isLoopback listener.state.viaTls uuid hostname client method
        (String.ofList target.text) headers body = some msg ∧
      ¬ ((msg.scheme = .https ↔ listener = .https) ∧ Carried target (url addr msg.uri)) ∧
      (msg.scheme = .https ↔ listener = .http) ∧
      ((∀ c ∈ (localHost addr).toList, isDelimiter c = false) →
        (Carried target (url addr msg.uri) ↔ ∃ form, target = .origin form)) ∧
      (OneColon lib → (∀ c ∈ (localHost addr).toList, isDelimiter c = false) →
        ∀ before form, target = .absolute before form → '@' ∉ before.scheme →
          ']' ∉ before.scheme → ∃ e, lib.checkRequest (url addr msg.uri) = .error e) := by
  obtain ⟨msg, hmsg, huri, hscheme⟩ := enqueueRequest_sent lib isLoopback listener uuid hostname
    client method target headers body
  refine ⟨msg, hmsg, ?_, hscheme, ?_, ?_⟩
  · rintro ⟨hclaim, _⟩
    cases listener <;> simp [hscheme] at hclaim
  · intro hhost
    rw [huri]
    exact carried_iff target hhost
  · rintro hlib hhost before form rfl hat hbracket
    rw [huri]
    exact absolute_refused hlib hhost form hat hbracket

def proxied : Target :=
  .absolute ⟨['h', 't', 't', 'p'], ['o', 'r', 'g'], by simp [isDelimiter],
    by simp [isDelimiter]⟩ slashFoo

def strictHttp : HttpLib HeaderSurvival.Name HeaderSurvival.Value String :=
  { HeaderSurvival.plainHttp with
    checkRequest := fun url =>
      if ((authority (url.toList.drop 7)).rtakeWhile fun c => c ≠ '@' && c ≠ ']').count ':' ≤ 1
      then .ok () else .error "invalid authority" }

theorem strictHttp_oneColon : OneColon strictHttp := by
  intro url rest before after hok hurl hauthority hat hbracket
  have hrest : url.toList.drop 7 = rest := by
    rw [hurl]
    rfl
  have hplain : ∀ c ∈ after.reverse, (c ≠ '@' && c ≠ ']') = true := by
    intro c hc
    have hmem := List.mem_reverse.mp hc
    simp only [ne_eq, decide_not, Bool.and_eq_true, Bool.not_eq_true', decide_eq_false_iff_not]
    exact ⟨fun h => hat (h ▸ hmem), fun h => hbracket (h ▸ hmem)⟩
  have hcount : ((authority rest).rtakeWhile fun c => c ≠ '@' && c ≠ ']').count ':' ≤ 1 := by
    simpa [strictHttp, hrest] using hok
  rw [hauthority, List.rtakeWhile, List.reverse_append, List.takeWhile_append_of_pos hplain,
    List.reverse_append, List.reverse_reverse, List.count_append] at hcount
  omega

theorem effective_uri_lost_proxied :
    ∃ msg, enqueueRequest strictHttp (fun _ => false) Listener.http.state.viaTls "uuid"
        "something.localhost" ("127.0.0.1", 50000) "GET" (String.ofList proxied.text) .empty [] =
          some msg ∧
      ∃ e, strictHttp.checkRequest (url ⟨none, 8080⟩ msg.uri) = .error e := by
  obtain ⟨msg, hmsg, _, _, _, hrefused⟩ := effective_uri_lost strictHttp (fun _ => false) .http
    "uuid" "something.localhost" ("127.0.0.1", 50000) "GET" proxied .empty [] ⟨none, 8080⟩
  have hhost : ∀ c ∈ (localHost ⟨none, 8080⟩).toList, isDelimiter c = false := by
    simp [localHost, isDelimiter]
  exact ⟨msg, hmsg, hrefused strictHttp_oneColon hhost _ _ rfl (by decide) (by decide)⟩

def enqueued (listener : Listener) (target : Target) : Option HttpRequest :=
  enqueueRequest HeaderSurvival.plainHttp (fun _ => false) listener.state.viaTls "uuid"
    "something.localhost" ("127.0.0.1", 50000) "GET" (String.ofList target.text)
    (.empty : Grouped HeaderSurvival.Name HeaderSurvival.Value) []

/-- Both listeners name the other's scheme, and the proxied target becomes another path. -/
theorem scheme_swapped :
    (∃ msg, enqueued .https (.origin slashFoo) = some msg ∧ msg.scheme = .http) ∧
      (∃ msg, enqueued .http (.origin slashFoo) = some msg ∧ msg.scheme = .https) ∧
      (∃ msg, enqueued .https proxied = some msg ∧ ¬ Carried proxied (url ⟨none, 8080⟩ msg.uri)) :=
  ⟨⟨_, rfl, rfl⟩, ⟨_, rfl, rfl⟩, ⟨_, rfl, by unfold Carried; decide⟩⟩

end RequestTarget
