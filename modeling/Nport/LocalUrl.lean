import Nport.HeaderSurvival
import Nport.UriSyntax

/-! The URL of send_request: the registered local address and the uri of the message, put
together as text and taken apart again by the crate http. What the crate makes of an
accepted URL is a parameter, with the generic syntax of URIs relied on. -/
namespace LocalUrl

open Libnp
open UriSyntax
open PortTask (Bytes)
open HttpForward (HttpLib HttpRequest HttpError insertHeaders localRequest)

/-- What send_request takes for the host of an address. -/
def localHost (addr : Addr) : String := addr.host.getD "127.0.0.1"

def url (addr : Addr) (uri : String) : String :=
  "http://" ++ localHost addr ++ ":" ++ toString addr.port ++ uri

def afterScheme (addr : Addr) (uri : String) : List Char :=
  (localHost addr).toList ++ ':' :: (addr.port.toNat.repr.toList ++ uri.toList)

/-- u16::from_str: a plus sign may stand before the digits. -/
def parseU16 (l : List Char) : Option UInt16 :=
  let digits := if l.head? = some '+' then l.tail else l
  if digits ≠ [] ∧ digits.all Char.isDigit = true ∧ Nat.ofDigitChars 10 digits 0 < 65536 then
    some (Nat.ofDigitChars 10 digits 0).toUInt16
  else none

def portNumber (a : List Char) : UInt16 := ((portText a).bind parseU16).getD 80

/-- Uri::host and Uri::port of the URLs that Request::builder accepts. -/
structure UriLib {N V M : Type*} (lib : HttpLib N V M) where
  host : String → String
  port : String → Option UInt16
  host_eq : ∀ url rest, lib.checkRequest url = .ok () → url.toList = "http://".toList ++ rest →
    (host url).toList = hostOf (afterUserinfo (authority rest))
  port_eq : ∀ url rest, lib.checkRequest url = .ok () → url.toList = "http://".toList ++ rest →
    port url = (portText (afterUserinfo (authority rest))).bind parseU16

variable {N V M : Type*} [DecidableEq N] {lib : HttpLib N V M}

def endpoint (uris : UriLib lib) (url : String) : String × UInt16 :=
  (uris.host url, (uris.port url).getD 80)

/-- What stands before the first delimiter leaves host and port as they are: after its last
@ it names them again, or the host is plain and the port number reads the same with it. -/
def Harmless (host : List Char) (port : UInt16) (junk : List Char) : Prop :=
  if '@' ∈ junk then hostOf (afterUserinfo junk) = host ∧ portNumber (afterUserinfo junk) = port
  else PlainHost host ∧ portNumber (':' :: (port.toNat.repr.toList ++ junk)) = port

def Stays (addr : Addr) (uri : String) : Prop :=
  (∀ c ∈ (localHost addr).toList, isDelimiter c = false ∧ c ≠ '@') ∧
    Harmless (localHost addr).toList addr.port (authority uri.toList)

theorem url_toList (addr : Addr) (uri : String) :
    (url addr uri).toList = "http://".toList ++ afterScheme addr uri := by
  have hport : toString addr.port = addr.port.toNat.repr := rfl
  simp [url, afterScheme, hport]

/-- What send_request refuses for an address: a method, URL, header name or header value that
the crates do not take. -/
def Refused (lib : HttpLib N V M) (addr : Addr) (req : HttpRequest) : Prop :=
  (∃ e, lib.methodFromBytes req.method = .error e) ∨
    (∃ e, lib.checkRequest (url addr req.uri) = .error e) ∨
    ∃ h ∈ req.headers.entries.map fun e => (e.1, e.2),
      (∃ e, lib.nameFromStr h.1 = .error e) ∨ ∃ e, lib.valueFromBytes h.2 = .error e

theorem invalid_header_iff {l : List (String × Bytes)} (headers : Multimap.Grouped N V) :
    (∃ h ∈ l, (∃ e, lib.nameFromStr h.1 = .error e) ∨ ∃ e, lib.valueFromBytes h.2 = .error e) ↔
      ¬ ∃ m, insertHeaders lib l headers = .ok m := by
  induction l generalizing headers with
  | nil => simp [insertHeaders]
  | cons h l ih =>
    obtain ⟨key, value⟩ := h
    rw [insertHeaders]
    cases hn : lib.nameFromStr key with
    | error e => simp [hn]
    | ok name =>
      cases hv : lib.valueFromBytes value with
      | error e => simp [hv]
      | ok v => simp only [← ih (headers.insert name v)]; simp [hn, hv]

theorem localRequest_unregistered {httpPort : String → Option Addr} {req : HttpRequest}
    (h : httpPort req.hostname = none) :
    localRequest lib httpPort req = .error (.forwardingNotRegistered req.hostname) := by
  simp [localRequest, h]

theorem localRequest_ok {httpPort : String → Option Addr} {req : HttpRequest} {addr : Addr}
    (h : httpPort req.hostname = some addr) {built : HttpForward.Request N V M} :
    localRequest lib httpPort req = .ok built ↔
      ∃ method headers, lib.methodFromBytes req.method = .ok method ∧
        lib.checkRequest (url addr req.uri) = .ok () ∧
        insertHeaders lib (req.headers.entries.map fun e => (e.1, e.2)) .empty = .ok headers ∧
        built = ⟨url addr req.uri, method, headers, req.body.getD []⟩ := by
  have hurl : "http://" ++ addr.host.getD "127.0.0.1" ++ ":" ++ toString addr.port ++ req.uri =
      url addr req.uri := rfl
  simp only [localRequest, h, hurl]
  cases hm : lib.methodFromBytes req.method with
  | error e => simp
  | ok method =>
    cases hc : lib.checkRequest (url addr req.uri) with
    | error e => simp
    | ok u =>
      cases hi : insertHeaders lib (req.headers.entries.map fun e => (e.1, e.2)) .empty with
      | error e => simp [Except.map]
      | ok headers => simp [Except.map, eq_comm]

theorem exists_error_iff {α : Type*} {x : Except String α} :
    (∃ e, x = .error e) ↔ ¬ ∃ a, x = .ok a := by
  cases x <;> simp

theorem refused_iff {httpPort : String → Option Addr} {req : HttpRequest} {addr : Addr}
    (h : httpPort req.hostname = some addr) :
    Refused lib addr req ↔ ¬ ∃ built, localRequest lib httpPort req = .ok built := by
  rw [Refused, invalid_header_iff .empty, exists_error_iff, exists_error_iff, ← not_and_or,
    ← not_and_or, not_iff_not]
  constructor
  · rintro ⟨⟨method, hm⟩, ⟨⟨⟩, hc⟩, headers, hi⟩
    exact ⟨_, (localRequest_ok h).mpr ⟨method, headers, hm, hc, hi, rfl⟩⟩
  · rintro ⟨built, hb⟩
    obtain ⟨method, headers, hm, hc, hi, _⟩ := (localRequest_ok h).mp hb
    exact ⟨⟨method, hm⟩, ⟨(), hc⟩, headers, hi⟩

theorem isDigit_of_mem_repr {n : ℕ} {c : Char} (h : c ∈ n.repr.toList) : c.isDigit = true := by
  rw [Nat.toList_repr] at h
  exact Nat.isDigit_of_mem_toDigits (by decide) (by decide) h

theorem digit_plain {n : ℕ} {c : Char} (h : c ∈ n.repr.toList) :
    isDelimiter c = false ∧ c ≠ '@' ∧ c ≠ ':' := by
  have hd := isDigit_of_mem_repr h
  refine ⟨not_delimiter_of_isAddressChar
    (isAddressChar_of_isHexDigit (isHexDigit_of_isDigit hd)), ?_, ?_⟩
  · rintro rfl
    revert hd
    decide
  · rintro rfl
    revert hd
    decide

theorem hostPort_plain {addr : Addr}
    (h : ∀ c ∈ (localHost addr).toList, isDelimiter c = false) :
    ∀ c ∈ (localHost addr).toList ++ ':' :: addr.port.toNat.repr.toList,
      isDelimiter c = false := by
  intro c hc
  rcases List.mem_append.mp hc with hc | hc
  · exact h c hc
  · rcases List.mem_cons.mp hc with rfl | hc
    · rfl
    · exact (digit_plain hc).1

theorem afterScheme_eq (addr : Addr) (uri : String) :
    afterScheme addr uri =
      ((localHost addr).toList ++ ':' :: addr.port.toNat.repr.toList) ++ uri.toList := by
  simp [afterScheme]

theorem authority_afterScheme (addr : Addr) (uri : String)
    (h : ∀ c ∈ (localHost addr).toList, isDelimiter c = false) :
    authority (afterScheme addr uri) = (localHost addr).toList ++
      ':' :: (addr.port.toNat.repr.toList ++ authority uri.toList) := by
  rw [afterScheme_eq, authority_append (hostPort_plain h)]
  simp

theorem hostOf_ne {a host : List Char} {c : Char} (h : c ∈ host)
    (hc : isDelimiter c = true ∨ c = '@') :
    hostOf (afterUserinfo (authority a)) ≠ host := by
  rintro rfl
  have hm := mem_of_mem_hostOf h
  rcases hc with hc | rfl
  · have hn := not_delimiter_of_mem_authority (mem_of_mem_afterUserinfo hm)
    rw [hc] at hn
    cases hn
  · exact not_mem_afterUserinfo hm

theorem stays_iff (addr : Addr) (uri : String) :
    (hostOf (afterUserinfo (authority (afterScheme addr uri))) = (localHost addr).toList ∧
      portNumber (afterUserinfo (authority (afterScheme addr uri))) = addr.port) ↔
    Stays addr uri := by
  by_cases hplain : ∀ c ∈ (localHost addr).toList, isDelimiter c = false ∧ c ≠ '@'
  · have ha := authority_afterScheme addr uri fun c hc => (hplain c hc).1
    have hstays : Stays addr uri ↔
        Harmless (localHost addr).toList addr.port (authority uri.toList) :=
      ⟨fun h => h.2, fun h => ⟨hplain, h⟩⟩
    rw [ha, hstays, Harmless]
    split
    next hat =>
      have hsplit : (localHost addr).toList ++
          ':' :: (addr.port.toNat.repr.toList ++ authority uri.toList) =
          ((localHost addr).toList ++ ':' :: addr.port.toNat.repr.toList) ++
            authority uri.toList := by simp
      rw [hsplit, afterUserinfo_append hat]
    next hat =>
      have hno : '@' ∉ (localHost addr).toList ++
          ':' :: (addr.port.toNat.repr.toList ++ authority uri.toList) := by
        simp only [List.mem_append, List.mem_cons, not_or]
        refine ⟨fun h => (hplain _ h).2 rfl, by decide, ?_, hat⟩
        intro h
        exact (digit_plain h).2.1 rfl
      rw [afterUserinfo_eq_self hno, hostOf_append_colon, portNumber,
        portText_append (List.mem_cons_self ..), portNumber]
  · push Not at hplain
    obtain ⟨c, hc, hbad⟩ := hplain
    have hor : isDelimiter c = true ∨ c = '@' := by
      cases hd : isDelimiter c with
      | true => exact Or.inl rfl
      | false => exact Or.inr (hbad hd)
    constructor
    · rintro ⟨hhost, _⟩
      exact absurd hhost (hostOf_ne hc hor)
    · rintro ⟨hall, _⟩
      have hgood := hall c hc
      rcases hor with hd | rfl
      · rw [hd] at hgood
        cases hgood.1
      · exact absurd rfl hgood.2

theorem colon_not_mem_repr (n : ℕ) : ':' ∉ n.repr.toList := fun h => (digit_plain h).2.2 rfl

theorem repr_head_ne (n : ℕ) : n.repr.toList.head? ≠ some '+' := by
  intro h
  exact absurd (isDigit_of_mem_repr (List.mem_of_mem_head? h)) (by decide)

theorem parseU16_repr (port : UInt16) : parseU16 port.toNat.repr.toList = some port := by
  have hdigits : port.toNat.repr.toList.all Char.isDigit = true :=
    List.all_eq_true.mpr fun c hc => isDigit_of_mem_repr hc
  have hne : port.toNat.repr.toList ≠ [] := by
    rw [Nat.toList_repr]
    exact Nat.toDigits_ne_nil
  have hvalue : Nat.ofDigitChars 10 port.toNat.repr.toList 0 = port.toNat := by
    rw [Nat.toList_repr, Nat.ofDigitChars_ten_toDigits]
  have hlt : port.toNat < 65536 := port.toNat_lt
  simp only [parseU16, repr_head_ne, if_false, hvalue]
  rw [if_pos ⟨hne, hdigits, hlt⟩]
  simp

theorem portNumber_repr (port : UInt16) :
    portNumber (':' :: port.toNat.repr.toList) = port := by
  rw [portNumber, portText_colon (colon_not_mem_repr _), Option.bind_some, parseU16_repr,
    Option.getD_some]

theorem stays_of_delimited {addr : Addr} {uri : String}
    (hplain : ∀ c ∈ (localHost addr).toList, isDelimiter c = false ∧ c ≠ '@')
    (hhost : PlainHost (localHost addr).toList) (huri : authority uri.toList = []) :
    Stays addr uri := by
  refine ⟨hplain, ?_⟩
  rw [huri, Harmless, if_neg List.not_mem_nil, List.append_nil]
  exact ⟨hhost, portNumber_repr addr.port⟩

omit [DecidableEq N] in
theorem endpoint_url (uris : UriLib lib) {addr : Addr} {uri : String}
    (h : lib.checkRequest (url addr uri) = .ok ()) :
    endpoint uris (url addr uri) = (localHost addr, addr.port) ↔ Stays addr uri := by
  rw [← stays_iff, ← uris.host_eq _ _ h (url_toList addr uri), portNumber,
    ← uris.port_eq _ _ h (url_toList addr uri)]
  simp only [endpoint, Prod.mk.injEq, String.toList_inj]

/-- np connects to the registered local host and port and nowhere else exactly when it
refuses the request, or the uri goes on from the port with a delimiter or is harmless
before its first one. -/
theorem connects_as_registered_iff (uris : UriLib lib) (httpPort : String → Option Addr)
    (req : HttpRequest) :
    (∀ built, localRequest lib httpPort req = .ok built →
      ∃ addr, httpPort req.hostname = some addr ∧
        endpoint uris built.uri = (localHost addr, addr.port)) ↔
    ∀ addr, httpPort req.hostname = some addr → Refused lib addr req ∨ Stays addr req.uri := by
  cases ha : httpPort req.hostname with
  | none => simp [localRequest_unregistered ha]
  | some addr =>
    constructor
    · rintro hall _ ⟨⟩
      by_cases hr : Refused lib addr req
      · exact Or.inl hr
      · obtain ⟨built, hb⟩ := not_not.mp (mt (refused_iff ha).mpr hr)
        obtain ⟨_, _, _, hc, _, rfl⟩ := (localRequest_ok ha).mp hb
        obtain ⟨_, ⟨⟩, hend⟩ := hall _ hb
        exact Or.inr ((endpoint_url uris hc).mp hend)
    · intro hall built hb
      obtain ⟨_, _, _, hc, _, rfl⟩ := (localRequest_ok ha).mp hb
      rcases hall addr rfl with hr | hs
      · exact absurd ⟨_, hb⟩ ((refused_iff ha).mp hr)
      · exact ⟨addr, rfl, (endpoint_url uris hc).mpr hs⟩

def plainUris : UriLib HeaderSurvival.plainHttp where
  host url := String.ofList (hostOf (afterUserinfo (authority (url.toList.drop 7))))
  port url := (portText (afterUserinfo (authority (url.toList.drop 7)))).bind parseU16
  host_eq url rest _ h := by simp [h]
  port_eq url rest _ h := by simp [h]

def onPort8080 (_ : String) : Option Addr := some ⟨none, 8080⟩

def requestFor (uri : String) : HttpRequest :=
  ⟨"uuid", "something.localhost", none, .http, "GET", uri, Multimap.collect [], none⟩

/-- The host of the message's choice: the registered one and its port become userinfo. -/
theorem userinfo_redirects :
    ∃ built, localRequest HeaderSurvival.plainHttp onPort8080 (requestFor "@evil.com/") =
        .ok built ∧ endpoint plainUris built.uri = ("evil.com", 80) :=
  ⟨_, rfl, by decide⟩

section Dialed

/-! The same address in a TCP tunnel, which dials Addr::to_string(). -/

structure OriginForm where
  path : List Char
  query : Option (List Char)
  slash : path.head? = some '/'
  path_chars : ∀ c ∈ path, c ≠ '?' ∧ c ≠ '#'
  query_chars : ∀ q, query = some q → '#' ∉ q

def OriginForm.text (t : OriginForm) : List Char :=
  t.path ++ (match t.query with
    | some q => '?' :: q
    | none => [])

theorem OriginForm.authority_text (t : OriginForm) : authority t.text = [] := by
  have hslash := t.slash
  cases hp : t.path with
  | nil => simp [hp] at hslash
  | cons c rest =>
    obtain rfl : c = '/' := by simpa [hp] using hslash
    simp [OriginForm.text, hp, authority_of_slash]

def IsHostname (l : List Char) : Prop :=
  l ≠ [] ∧ ∀ c ∈ l, c.isAlphanum = true ∨ c ∈ ['-', '.', '_']

inductive HostKind : Option String → Prop where
  | absent : HostKind none
  | hostname {h : String} : IsHostname h.toList → HostKind (some h)
  | ipv4 {h : String} : IsIPv4 h.toList → HostKind (some h)
  | ipv6 {h : String} : IsIPv6 h.toList → HostKind (some h)

def IsIPv6Host (host : Option String) : Prop := ∃ h, host = some h ∧ IsIPv6 h.toList

def urlAuthority (url : String) : List Char := authority (url.toList.drop 7)

theorem urlAuthority_url {addr : Addr} {t : OriginForm}
    (h : ∀ c ∈ (localHost addr).toList, isDelimiter c = false) :
    urlAuthority (url addr (String.ofList t.text)) =
      (localHost addr).toList ++ ':' :: addr.port.toNat.repr.toList := by
  have hdrop : (url addr (String.ofList t.text)).toList.drop 7 =
      afterScheme addr (String.ofList t.text) := by
    rw [url_toList]
    rfl
  rw [urlAuthority, hdrop, authority_afterScheme _ _ h, String.toList_ofList, t.authority_text]
  simp

theorem localHost_eq (addr : Addr) : addr.host.getD defaultAddrHost = localHost addr := rfl

theorem display_toList (addr : Addr) :
    addr.display.toList =
      (if ':' ∈ (localHost addr).toList then '[' :: (localHost addr).toList ++ [']']
        else (localHost addr).toList) ++ ':' :: addr.port.toNat.repr.toList := by
  simp only [Addr.display, localHost_eq]
  by_cases hc : ':' ∈ (localHost addr).toList
  · simp [hc]
  · simp [hc]

theorem same_of_name {addr : Addr} (t : OriginForm)
    (h : ∀ c ∈ (localHost addr).toList, isNameChar c = true) :
    IsAuthority (urlAuthority (url addr (String.ofList t.text))) ∧
      String.ofList (urlAuthority (url addr (String.ofList t.text))) = addr.display ∧
      ':' ∉ (localHost addr).toList := by
  have hcolon : ':' ∉ (localHost addr).toList := by
    intro hc
    have hn := h _ hc
    revert hn
    decide
  rw [urlAuthority_url fun c hc => not_delimiter_of_isNameChar (h c hc)]
  refine ⟨isAuthority_of_host (.name (isEncoded_of_forall h))
    fun c hc => isDigit_of_mem_repr hc, ?_, hcolon⟩
  rw [← String.toList_inj, String.toList_ofList, display_toList, if_neg hcolon]

theorem isNameChar_of_hostname {c : Char} (h : c.isAlphanum = true ∨ c ∈ ['-', '.', '_']) :
    isNameChar c = true := by
  rcases h with h | h
  · simp [isNameChar, h]
  · simp only [List.mem_cons, List.not_mem_nil, or_false] at h
    rcases h with rfl | rfl | rfl <;> decide

/-- The two texts of a local address agree, and the one in the URL is an authority, for every
host but an IPv6 address: only Display puts it in brackets. -/
theorem same_address_iff {addr : Addr} (kind : HostKind addr.host) (t : OriginForm) :
    (IsAuthority (urlAuthority (url addr (String.ofList t.text))) ∧
      String.ofList (urlAuthority (url addr (String.ofList t.text))) = addr.display) ↔
    ¬ IsIPv6Host addr.host := by
  have name (h : ∀ c ∈ (localHost addr).toList, isNameChar c = true)
      (hsame : ∀ host, addr.host = some host → localHost addr = host) :
      (IsAuthority (urlAuthority (url addr (String.ofList t.text))) ∧
        String.ofList (urlAuthority (url addr (String.ofList t.text))) = addr.display) ↔
      ¬ IsIPv6Host addr.host := by
    obtain ⟨ha, hd, hcolon⟩ := same_of_name t h
    refine iff_of_true ⟨ha, hd⟩ ?_
    rintro ⟨host, hh, hv6⟩
    apply hcolon
    rw [hsame host hh]
    exact hv6.colon
  obtain ⟨host, port⟩ := addr
  cases kind with
  | absent =>
    have hall : (localHost ⟨none, port⟩).toList.all isNameChar = true := by
      rw [show localHost ⟨none, port⟩ = "127.0.0.1" from rfl]
      decide
    exact name (List.all_eq_true.mp hall) (by simp)
  | hostname hh =>
    exact name (fun c hc => isNameChar_of_hostname (hh.2 c hc)) (by simp [localHost])
  | ipv4 hh =>
    refine name (fun c hc => isNameChar_of_hostname ?_) (by simp [localHost])
    rcases hh.chars c hc with hd | rfl
    · simp [Char.isAlphanum, hd]
    · simp
  | @ipv6 h hh =>
    refine iff_of_false ?_ (not_not.mpr ⟨h, rfl, hh⟩)
    rintro ⟨hauthority, _⟩
    have hd : ∀ c ∈ (localHost ⟨some h, port⟩).toList, isDelimiter c = false :=
      fun c hc => not_delimiter_of_isAddressChar (hh.chars c hc)
    rw [urlAuthority_url hd] at hauthority
    exact hh.not_authority (fun c hc => isDigit_of_mem_repr hc) hauthority

def slashFoo : OriginForm :=
  ⟨['/', 'f', 'o', 'o'], some ['b', 'a', 'r', '=', '1'], rfl, by simp, by simp⟩

theorem same_address_by_default :
    IsAuthority (urlAuthority (url ⟨none, 8080⟩ (String.ofList slashFoo.text))) ∧
      String.ofList (urlAuthority (url ⟨none, 8080⟩ (String.ofList slashFoo.text))) =
        Addr.display ⟨none, 8080⟩ :=
  (same_address_iff .absent slashFoo).mpr (by simp [IsIPv6Host])

theorem ipv6_not_bracketed :
    HostKind (some "::1") ∧
      String.ofList (urlAuthority (url ⟨some "::1", 8080⟩ (String.ofList slashFoo.text))) =
        "::1:8080" ∧
      String.ofList (urlAuthority (url ⟨some "::1", 8080⟩ (String.ofList slashFoo.text))) ≠
        Addr.display ⟨some "::1", 8080⟩ := by
  refine ⟨.ipv6 ?_, by decide, by decide⟩
  have hhex : ['1'].all isHexDigit = true := by decide
  have hone : IsSide true 1 ['1'] :=
    Or.inr (.one ⟨by simp, by simp, List.all_eq_true.mp hhex⟩)
  exact IsIPv6.short (Or.inl ⟨rfl, rfl⟩) hone (by decide)

end Dialed

end LocalUrl
