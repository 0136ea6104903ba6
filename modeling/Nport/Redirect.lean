import Nport.HostRouting
import Nport.RequestTarget

/-! From the plain listener to the TLS one: to_tls_middleware builds the authority of the
redirect from the main hostname, whichever router the request came to. What the crate http
accepts as an authority, and what a client writes into its Host header, are parameters. -/
namespace Redirect

open Multimap
open UriSyntax
open PortOpen (Hostnames)
open HostRouting (HostLib Router chooser stripPort apiConnectPath)
open LocalUrl (OriginForm)
open RequestTarget (Target)

/-- server::state::AppState, what the middleware asks it for. -/
structure AppState where
  hostnames : Hostnames
  httpsPort : UInt16
  viaTls : Bool

def AppState.new (hostnames : Hostnames) (httpsPort : UInt16) : AppState :=
  ⟨hostnames, httpsPort, false⟩

def AppState.withTls (state : AppState) : AppState := { state with viaTls := true }

def AppState.hasTls (state : AppState) : Bool := state.httpsPort > 0

structure Request (V : Type*) where
  headers : Grouped String V
  target : Target

def uriHost : Target → Option String
  | .origin _ => none
  | .absolute before _ => some (String.ofList (hostOf (afterUserinfo before.authority)))

def Request.routed {V : Type*} (request : Request V) : HostRouting.Request V :=
  ⟨request.headers, String.ofList request.target.form.path, uriHost request.target⟩

structure Parts where
  scheme : Option String
  authority : Option String
  pathAndQuery : Option OriginForm

def intoParts : Target → Parts
  | .origin form => ⟨none, none, some form⟩
  | .absolute before form =>
    ⟨some (String.ofList before.scheme), some (String.ofList before.authority), some form⟩

/-- Uri::from_parts: a scheme needs an authority and a path, and an authority with a path
needs a scheme. -/
def fromParts (parts : Parts) : Option Parts :=
  if parts.scheme.isSome then
    if parts.authority.isSome ∧ parts.pathAndQuery.isSome then some parts else none
  else if parts.authority.isSome ∧ parts.pathAndQuery.isSome then none
  else some parts

def Parts.display (uri : Parts) : String :=
  (match uri.scheme with
    | some scheme => scheme ++ "://"
    | none => "") ++
  uri.authority.getD "" ++
  (match uri.pathAndQuery with
    | some form => String.ofList form.text
    | none => "")

/-- Authority::from_str, which takes no text with a path, a query or a fragment in it. -/
structure AuthorityLib where
  parses : String → Bool
  plain : ∀ s, parses s = true → ∀ c ∈ s.toList, isDelimiter c = false
  visible : ∀ s, parses s = true → ∀ c ∈ s.toList, 32 ≤ c.toNat ∧ c.toNat < 127

inductive Reply where
  /-- Redirect::permanent -/
  | permanent (location : String)
  | next
  deriving DecidableEq, Repr

def defaultHttpsPort : UInt16 := 443

def authorityStr (state : AppState) : String :=
  let mainHostname := state.hostnames.domain
  if state.httpsPort = defaultHttpsPort then mainHostname
  else mainHostname ++ ":" ++ toString state.httpsPort

def toTlsMiddleware {V : Type*} (authorities : AuthorityLib) (state : AppState)
    (request : Request V) : Reply :=
  if state.hasTls && !state.viaTls then
    let parts := { intoParts request.target with scheme := some "https" }
    if authorities.parses (authorityStr state) then
      match fromParts { parts with authority := some (authorityStr state) } with
      | some uri => .permanent uri.display
      | none => .next
    else .next
  else .next

/-- The routes of a router that to_tls_middleware is layered over. -/
def tlsRoutes : Router → List String
  | .main => ["/", "/stats", "/build_info.json"]
  | .api => [apiConnectPath]
  | .forwarding => []

/-- HeaderValue::from_str on visible characters, read by HeaderValue::to_str. -/
structure ClientLib {V : Type*} (lib : HostLib V) where
  fromStr : String → V
  toStr_fromStr : ∀ s, (∀ c ∈ s.toList, 32 ≤ c.toNat ∧ c.toNat < 127) →
    lib.toStr (fromStr s) = some s

def afterHttps (location : String) : List Char := location.toList.drop 8

/-- A request for an https URL: its host and port stand in the Host header, in the spelling
of the URL, and its path and query in the request line. -/
structure Follows {V : Type*} {lib : HostLib V} (client : ClientLib lib) (location : String)
    (request : Request V) : Prop where
  direct : request.routed.Direct
  host : request.routed.get "host" =
    some (client.fromStr (String.ofList (afterUserinfo (authority (afterHttps location)))))
  path : request.target.form.path = path (afterHttps location)
  query : request.target.form.query = query (afterHttps location)

/-- The second request comes to the router and route of the first on the TLS listener, with
its query, and gets no redirect. -/
structure SamePage {V : Type*} (lib : HostLib V) (authorities : AuthorityLib) (state : AppState)
    (first second : Request V) : Prop where
  router : (chooser lib state.hostnames second.routed).map Prod.fst =
    (chooser lib state.hostnames first.routed).map Prod.fst
  path : second.target.form.path = first.target.form.path
  query : second.target.form.query = first.target.form.query
  final : toTlsMiddleware authorities state.withTls second = .next

/-- The main hostname leads to the router, and the chooser reads it in the Host header. -/
def MainReached (state : AppState) (router : Router) : Prop :=
  (router = .main ∨ state.hostnames.api = "") ∧ '@' ∉ state.hostnames.domain.toList ∧
    (state.httpsPort = defaultHttpsPort → ':' ∉ state.hostnames.domain.toList)

/-! The host that the chooser reads. -/

theorem stripPort_mem {raw : String} {c : Char} (h : c ∈ (stripPort raw).toList) :
    c ∈ raw.toList := by
  rcases HostRouting.stripPort_eq (rfl : stripPort raw = stripPort raw) with heq | ⟨port, heq⟩
  · rwa [heq]
  · rw [heq]
    simp [h]

theorem stripPort_of_not_mem {raw : String} (h : ':' ∉ raw.toList) : stripPort raw = raw := by
  rcases HostRouting.stripPort_eq (rfl : stripPort raw = stripPort raw) with heq | ⟨port, heq⟩
  · exact heq.symm
  · rw [heq] at h
    simp at h

theorem stripPort_append {host port : String} (h : ':' ∉ port.toList) :
    stripPort (host ++ ":" ++ port) = host := by
  have hall : ∀ c ∈ port.toList.reverse, decide (c ≠ ':') = true :=
    forall_ne_of_not_mem (mt List.mem_reverse.mp h)
  have hdrop : (host ++ ":" ++ port).toList.reverse.dropWhile (· ≠ ':') =
      ':' :: host.toList.reverse := by
    simp only [String.toList_append, List.reverse_append, List.append_assoc]
    rw [List.dropWhile_append_of_pos hall]
    simp
  rw [stripPort, hdrop]
  simp

theorem stripPort_length_lt {raw : String} (h : ':' ∈ raw.toList) :
    (stripPort raw).toList.length < raw.toList.length := by
  obtain ⟨after, before, hsplit, hnot⟩ :=
    List.eq_append_cons_of_mem (List.mem_reverse.mpr h)
  have hraw : raw = String.ofList before.reverse ++ ":" ++ String.ofList after.reverse := by
    rw [← String.toList_inj, ← List.reverse_reverse raw.toList, hsplit]
    simp
  have hport : ':' ∉ (String.ofList after.reverse).toList := by simpa using hnot
  rw [hraw, stripPort_append hport]
  simp

section Location

variable {V : Type*} {authorities : AuthorityLib} {state : AppState} {request : Request V}
  {location : String}

theorem toTlsMiddleware_withTls : toTlsMiddleware authorities state.withTls request = .next := by
  simp [toTlsMiddleware, AppState.withTls]

theorem toTlsMiddleware_permanent
    (h : toTlsMiddleware authorities state request = .permanent location) :
    authorities.parses (authorityStr state) = true ∧
      afterHttps location = (authorityStr state).toList ++ request.target.form.text := by
  have hdisplay (uri : Parts) (form : OriginForm) (hs : uri.scheme = some "https")
      (ha : uri.authority = some (authorityStr state)) (hp : uri.pathAndQuery = some form) :
      fromParts uri = some uri ∧
        afterHttps uri.display = (authorityStr state).toList ++ form.text := by
    simp [fromParts, Parts.display, afterHttps, hs, ha, hp]
  have hform : (intoParts request.target).pathAndQuery = some request.target.form := by
    cases request.target <;> rfl
  unfold toTlsMiddleware at h
  split at h
  · dsimp only at h
    split at h
    · next hparses =>
      obtain ⟨hfrom, htext⟩ := hdisplay { intoParts request.target with
        scheme := some "https", authority := some (authorityStr state) } _ rfl rfl hform
      rw [hfrom] at h
      simp only [Reply.permanent.injEq] at h
      exact ⟨hparses, h ▸ htext⟩
    · cases h
  · cases h

theorem port_digit {port : UInt16} {c : Char} (h : c ∈ (toString port).toList) :
    c ≠ '@' ∧ c ≠ ':' :=
  (LocalUrl.digit_plain (n := port.toNat) h).2

def readHost (state : AppState) : String :=
  stripPort (String.ofList (afterUserinfo (authorityStr state).toList))

theorem at_not_mem_readHost : '@' ∉ (readHost state).toList := by
  intro h
  exact not_mem_afterUserinfo (by simpa using stripPort_mem h)

theorem readHost_of_plain (h : '@' ∉ state.hostnames.domain.toList) :
    readHost state = if state.httpsPort = defaultHttpsPort then stripPort state.hostnames.domain
      else state.hostnames.domain := by
  by_cases hp : state.httpsPort = defaultHttpsPort
  · have hauthority : authorityStr state = state.hostnames.domain := if_pos hp
    rw [if_pos hp, readHost, hauthority, afterUserinfo_eq_self h, String.ofList_toList]
  · have hauthority : authorityStr state =
        state.hostnames.domain ++ ":" ++ toString state.httpsPort := if_neg hp
    have hcolon : ':' ∉ (toString state.httpsPort).toList := fun hm => (port_digit hm).2 rfl
    have hat : '@' ∉ (authorityStr state).toList := by
      rw [hauthority]
      intro hm
      simp only [String.toList_append, List.mem_append] at hm
      rcases hm with (hm | hm) | hm
      · exact h hm
      · simp at hm
      · exact (port_digit hm).1 rfl
    rw [if_neg hp, readHost, afterUserinfo_eq_self hat, String.ofList_toList, hauthority,
      stripPort_append hcolon]

theorem readHost_eq_domain_iff : readHost state = state.hostnames.domain ↔
    '@' ∉ state.hostnames.domain.toList ∧
      (state.httpsPort = defaultHttpsPort → ':' ∉ state.hostnames.domain.toList) := by
  constructor
  · intro h
    have hat : '@' ∉ state.hostnames.domain.toList := h ▸ at_not_mem_readHost
    refine ⟨hat, fun hp hcolon => ?_⟩
    rw [readHost_of_plain hat, if_pos hp] at h
    have hlt := stripPort_length_lt hcolon
    rw [h] at hlt
    exact lt_irrefl _ hlt
  · intro ⟨hat, hcolon⟩
    rw [readHost_of_plain hat]
    by_cases hp : state.httpsPort = defaultHttpsPort
    · rw [if_pos hp, stripPort_of_not_mem (hcolon hp)]
    · rw [if_neg hp]

theorem stripPort_length_le (raw : String) :
    (stripPort raw).toList.length ≤ raw.toList.length := by
  by_cases h : ':' ∈ raw.toList
  · exact (stripPort_length_lt h).le
  · rw [stripPort_of_not_mem h]

theorem readHost_eq_newHostname_iff {sub : String} :
    readHost state = Hostnames.newHostname state.hostnames.domain sub ↔
      sub = "" ∧ readHost state = state.hostnames.domain := by
  by_cases hsub : sub = ""
  · simp [Hostnames.newHostname, hsub]
  · simp only [Hostnames.newHostname, hsub, if_false, false_and, iff_false]
    intro h
    have hat : '@' ∉ state.hostnames.domain.toList := by
      intro hm
      have hnot : '@' ∉ (readHost state).toList := at_not_mem_readHost
      rw [h] at hnot
      simp [hm] at hnot
    have hle : (readHost state).toList.length ≤ state.hostnames.domain.toList.length := by
      rw [readHost_of_plain hat]
      split
      · exact stripPort_length_le _
      · exact le_rfl
    rw [h] at hle
    simp only [String.toList_append, List.length_append] at hle
    have hdot : ".".toList.length = 1 := rfl
    omega

end Location

section Second

variable {V : Type*} {lib : HostLib V} {client : ClientLib lib} {authorities : AuthorityLib}
  {state : AppState} {first second : Request V} {location : String}

theorem authority_location
    (hredirect : toTlsMiddleware authorities state first = .permanent location) :
    authority (afterHttps location) = (authorityStr state).toList := by
  obtain ⟨hparses, hrest⟩ := toTlsMiddleware_permanent hredirect
  rw [hrest, authority_append (authorities.plain _ hparses), OriginForm.authority_text,
    List.append_nil]

theorem chooser_second
    (hredirect : toTlsMiddleware authorities state first = .permanent location)
    (hfollows : Follows client location second) :
    (chooser lib state.hostnames second.routed).map Prod.fst =
      some (if readHost state = state.hostnames.apiHostname ∧
          second.routed.path = apiConnectPath then .api
        else if readHost state = state.hostnames.domain then .main
        else .forwarding) := by
  obtain ⟨hparses, _⟩ := toTlsMiddleware_permanent hredirect
  have hvisible : ∀ c ∈ (String.ofList (afterUserinfo (authorityStr state).toList)).toList,
      32 ≤ c.toNat ∧ c.toNat < 127 := by
    intro c hc
    rw [String.toList_ofList] at hc
    exact authorities.visible _ hparses c (mem_of_mem_afterUserinfo hc)
  have hextract : lib.extract second.routed =
      some (String.ofList (afterUserinfo (authorityStr state).toList)) := by
    rw [lib.direct _ hfollows.direct, hfollows.host, authority_location hredirect,
      Option.bind_some, client.toStr_fromStr _ hvisible, Option.some_or]
  have hread : stripPort (String.ofList (afterUserinfo (authorityStr state).toList)) =
      readHost state := rfl
  rw [chooser, hextract]
  simp only [Option.map_some, hread, apply_ite Prod.fst]

theorem exists_follows (client : ClientLib lib)
    (hredirect : toTlsMiddleware authorities state first = .permanent location) :
    ∃ second, Follows client location second := by
  obtain ⟨hparses, hrest⟩ := toTlsMiddleware_permanent hredirect
  have hplain := authorities.plain _ hparses
  refine ⟨⟨Grouped.empty.insert "host" (client.fromStr (String.ofList (afterUserinfo
    (authority (afterHttps location))))), .origin first.target.form⟩, ⟨?_, ?_⟩, ?_, ?_, ?_⟩
  · simp [HostRouting.Request.get, Request.routed]
  · simp [HostRouting.Request.get, Request.routed]
  · simp [HostRouting.Request.get, Request.routed]
  · rw [hrest, RequestTarget.path_append_form hplain]
    rfl
  · rw [hrest, RequestTarget.query_append_form hplain]
    rfl

theorem follows_form
    (hredirect : toTlsMiddleware authorities state first = .permanent location)
    (hfollows : Follows client location second) :
    second.target.form.path = first.target.form.path ∧
      second.target.form.query = first.target.form.query := by
  obtain ⟨hparses, hrest⟩ := toTlsMiddleware_permanent hredirect
  have hplain := authorities.plain _ hparses
  have hpath := hfollows.path
  have hquery := hfollows.query
  rw [hrest, RequestTarget.path_append_form hplain] at hpath
  rw [hrest, RequestTarget.query_append_form hplain] at hquery
  exact ⟨hpath, hquery⟩

theorem chosen_iff {router : Router} {path host api domain : String}
    (hpath : path ∈ tlsRoutes router) :
    (if host = api ∧ path = apiConnectPath then Router.api
      else if host = domain then .main else .forwarding) = router ↔
      (router = .main ∧ host = domain) ∨ (router = .api ∧ host = api) := by
  cases router with
  | forwarding => simp [tlsRoutes] at hpath
  | api =>
    obtain rfl : path = apiConnectPath := by simpa [tlsRoutes] using hpath
    by_cases hapi : host = api
    · simp [hapi]
    · by_cases hdomain : host = domain <;> simp [hapi, hdomain]
  | main =>
    have hne : path ≠ apiConnectPath := by
      rintro rfl
      revert hpath
      decide
    by_cases hdomain : host = domain <;> simp [hne, hdomain]

end Second

/-- A redirect leads to the same page exactly when the main hostname does: for the main
router, or for both when the API has no subdomain of its own. -/
theorem same_page_iff {V : Type*} {lib : HostLib V} (client : ClientLib lib)
    (authorities : AuthorityLib) (toLowercase : String → String) (domain : String)
    (api tcp : Option String) (blocklist : Option (List String)) (httpsPort : UInt16)
    {state : AppState}
    (hstate : state = .new (Hostnames.new toLowercase domain api tcp blocklist) httpsPort)
    {first : Request V} {router : Router} {host location : String}
    (hroute : chooser lib state.hostnames first.routed = some (router, host))
    (hpath : first.routed.path ∈ tlsRoutes router)
    (hredirect : toTlsMiddleware authorities state first = .permanent location) :
    (∀ second, Follows client location second →
      SamePage lib authorities state first second) ↔ MainReached state router := by
  have hreached (second : Request V) (hfollows : Follows client location second) :
      (chooser lib state.hostnames second.routed).map Prod.fst = some router ↔
        MainReached state router := by
    have hapi : state.hostnames.apiHostname =
        Hostnames.newHostname state.hostnames.domain state.hostnames.api := by
      rw [hstate]
      rfl
    have hsame : second.routed.path = first.routed.path :=
      congrArg String.ofList (follows_form hredirect hfollows).1
    rw [chooser_second hredirect hfollows, Option.some_inj, hsame, chosen_iff hpath, hapi,
      readHost_eq_newHostname_iff, readHost_eq_domain_iff, MainReached]
    cases router with
    | forwarding => simp [tlsRoutes] at hpath
    | main => simp
    | api => simp
  constructor
  · intro hall
    obtain ⟨second, hfollows⟩ := exists_follows client hredirect
    apply (hreached second hfollows).mp
    rw [(hall second hfollows).router, hroute]
    rfl
  · intro hmain second hfollows
    obtain ⟨hform, hquery⟩ := follows_form hredirect hfollows
    refine ⟨?_, hform, hquery, toTlsMiddleware_withTls⟩
    rw [(hreached second hfollows).mpr hmain, hroute]
    rfl

def visibleAuthorities : AuthorityLib where
  parses s := s.toList.all fun c => decide (32 ≤ c.toNat ∧ c.toNat < 127) && !isDelimiter c
  plain s h c hc := by
    have hall := List.all_eq_true.mp h c hc
    simp only [Bool.and_eq_true, Bool.not_eq_true'] at hall
    exact hall.2
  visible s h c hc := by
    have hall := List.all_eq_true.mp h c hc
    simp only [Bool.and_eq_true, decide_eq_true_eq] at hall
    exact hall.1

def textClient : ClientLib HostRouting.hostHeaderLib where
  fromStr := id
  toStr_fromStr _ _ := rfl

def tlsState (httpsPort : UInt16) : AppState :=
  .new (Hostnames.new Libnp.toAsciiLowercase "nport.io" (some "api") none none) httpsPort

def getOf (host : String) (form : OriginForm) : Request String :=
  ⟨Grouped.empty.insert "host" host, .origin form⟩

def statsForm : OriginForm :=
  ⟨['/', 's', 't', 'a', 't', 's'], some ['r', 'a', 'w'], rfl, by simp, by simp⟩

def connectForm : OriginForm :=
  ⟨apiConnectPath.toList, none, rfl, by simp [apiConnectPath], by simp⟩

theorem same_page_stats : ∃ second,
    toTlsMiddleware visibleAuthorities (tlsState 8443) (getOf "nport.io:8080" statsForm) =
        .permanent "https://nport.io:8443/stats?raw" ∧
      Follows textClient "https://nport.io:8443/stats?raw" second ∧
      SamePage HostRouting.hostHeaderLib visibleAuthorities (tlsState 8443)
        (getOf "nport.io:8080" statsForm) second := by
  have hroute : chooser HostRouting.hostHeaderLib (tlsState 8443).hostnames
      (getOf "nport.io:8080" statsForm).routed = some (.main, "nport.io") := by decide
  have hredirect : toTlsMiddleware visibleAuthorities (tlsState 8443)
      (getOf "nport.io:8080" statsForm) = .permanent "https://nport.io:8443/stats?raw" := by
    decide
  have hfollows : Follows textClient "https://nport.io:8443/stats?raw"
      (getOf "nport.io:8443" statsForm) := ⟨⟨rfl, rfl⟩, by decide, rfl, rfl⟩
  have hsame := same_page_iff textClient visibleAuthorities Libnp.toAsciiLowercase "nport.io"
    (some "api") none none 8443 rfl hroute (by decide) hredirect
  exact ⟨_, hredirect, hfollows, hsame.mpr ⟨Or.inl rfl, by decide, by decide⟩ _ hfollows⟩

/-- A plain request to the API is sent to the main site, which has no such page. -/
theorem api_redirected_to_main : ∃ second,
    chooser HostRouting.hostHeaderLib (tlsState 443).hostnames
        (getOf "api.nport.io" connectForm).routed = some (.api, "api.nport.io") ∧
      toTlsMiddleware visibleAuthorities (tlsState 443) (getOf "api.nport.io" connectForm) =
        .permanent "https://nport.io/v1/connect" ∧
      Follows textClient "https://nport.io/v1/connect" second ∧
      chooser HostRouting.hostHeaderLib (tlsState 443).hostnames second.routed =
        some (.main, "nport.io") ∧
      ¬ SamePage HostRouting.hostHeaderLib visibleAuthorities (tlsState 443)
        (getOf "api.nport.io" connectForm) second :=
  ⟨getOf "nport.io" connectForm, by decide, by decide,
    ⟨⟨rfl, rfl⟩, by decide, rfl, rfl⟩, by decide,
    fun h => absurd h.router (by decide)⟩

end Redirect
