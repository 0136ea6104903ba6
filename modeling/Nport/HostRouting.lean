import Nport.HttpOpen
import Nport.HostnameLookup
import Nport.Multimap

/-! From the host of a request to the client that answers it. The chooser of build_app takes
the host from axum's Host extractor and strips the port; forward looks the raw Host header
up; http::open builds the names that can be found. What axum and the name generator do is a
parameter, with what is documented of them. -/
namespace HostRouting

open GuardedMachine
open Registry (Hostname)
open HostnameLookup (getByHttpHostname)
open PortOpen (Hostnames)
open HttpOpen (CaseData hostnameToClaim withDomain)
open Multimap (Grouped)

structure Request (V : Type*) where
  headers : Grouped String V
  path : String
  uriHost : Option String

/-- HeaderMap::get: the first value. -/
def Request.get {V : Type*} (request : Request V) (name : String) : Option V :=
  (request.headers.getAll name).head?

/-- No proxy says which host it was asked for. -/
def Request.Direct {V : Type*} (request : Request V) : Prop :=
  request.get "forwarded" = none ∧ request.get "x-forwarded-host" = none

/-- The Host extractor of axum, and HeaderValue::to_str. -/
structure HostLib (V : Type*) where
  toStr : V → Option String
  extract : Request V → Option String
  direct : ∀ request, request.Direct →
    extract request = ((request.get "host").bind toStr).or request.uriHost

/-- The part before the last colon, as rsplit_once gives it, or the whole. -/
def stripPort (hostname : String) : String :=
  match hostname.toList.reverse.dropWhile (· ≠ ':') with
  | [] => hostname
  | _ :: before => String.ofList before.reverse

inductive Router where
  | api
  | main
  | forwarding
  deriving DecidableEq, Repr

def apiConnectPath : String := "/v1/connect"

/-- The chooser of build_app: the router and the host it compared. -/
def chooser {V : Type*} (lib : HostLib V) (hostnames : Hostnames) (request : Request V) :
    Option (Router × String) :=
  (lib.extract request).map fun hostname =>
    let host := stripPort hostname
    if host = hostnames.apiHostname ∧ request.path = apiConnectPath then (.api, host)
    else if host = hostnames.domain then (.main, host)
    else (.forwarding, host)

/-- The name that forward looks up. -/
def forwardHostname {V : Type*} (lib : HostLib V) (request : Request V) : String :=
  match request.get "host" with
  | some host => (lib.toStr host).getD ""
  | none => ""

inductive ForwardError where
  | clientNotFound
  deriving DecidableEq, Repr

/-- forward and enqueue_request, up to the client the request is sent to and the hostname
that goes into it. -/
def forward {V C : Type*} [DecidableEq C] (lib : HostLib V) (s : Registry.State C)
    (request : Request V) : Except ForwardError (C × Hostname) :=
  let hostname := forwardHostname lib request
  match getByHttpHostname s hostname with
  | none => .error .clientNotFound
  | some handler => .ok (handler, hostname)

/-- A name of names::Generator with a number: words and digits joined by hyphens. -/
def GeneratedName (name : String) : Prop :=
  name ≠ "" ∧ ∀ c ∈ name.toList, c.isAlphanum ∨ c = '-'

def Grantable (data : CaseData) (hostnames : Hostnames) (hostname : Hostname) : Prop :=
  ∃ generated requested, GeneratedName generated ∧
    hostnameToClaim data.toLowercase hostnames generated requested = .ok hostname

def ByOpen {C : Type*} (data : CaseData) (hostnames : Hostnames)
    (_ : Registry.State C) : Registry.Event C → Prop
  | .claimHttpHostname _ hostname => Grantable data hostnames hostname
  | _ => True

/-! The names in the registry. -/

theorem GeneratedName.notMem {name : String} (h : GeneratedName name) {c : Char}
    (hc : ¬ (c.isAlphanum ∨ c = '-')) : c ∉ name.toList :=
  fun hm => hc (h.2 c hm)

theorem grantable_withDomain {data : CaseData} {hostnames : Hostnames} {hostname : Hostname}
    (hg : Grantable data hostnames hostname) :
    ∃ s, hostname = withDomain hostnames.domain s ∧ s ≠ "" ∧ '.' ∉ s.toList ∧
      ':' ∉ s.toList := by
  obtain ⟨generated, requested, hgen, hok⟩ := hg
  obtain ⟨subdomain, hsub, rfl⟩ := HttpOpen.hostnameToClaim_ok hok
  by_cases hr : requested.getD "" = ""
  · obtain rfl : none = subdomain := by simpa [HttpOpen.subdomainForForwarding, hr] using hsub
    exact ⟨generated, rfl, hgen.1, hgen.notMem (by decide), hgen.notMem (by decide)⟩
  · cases requested with
    | none => exact absurd rfl hr
    | some requested =>
      obtain ⟨s, rfl, hlabel, hdot, _⟩ := HttpOpen.subdomainForForwarding_ok data hr hsub
      refine ⟨s, rfl, ?_, hdot, ?_⟩
      · rintro rfl
        exact absurd hlabel.length.1 (by decide)
      · intro hc
        exact absurd (hlabel.chars ':' hc) (by decide)

theorem grantable_ne_empty {data : CaseData} {hostnames : Hostnames} {hostname : Hostname}
    (hg : Grantable data hostnames hostname) : hostname ≠ "" := by
  obtain ⟨s, rfl, hs, _⟩ := grantable_withDomain hg
  unfold withDomain
  split
  · exact hs
  · intro he
    have hlen := congrArg (fun s : String => s.toList.length) he
    simp at hlen

theorem not_grantable_with_port {data : CaseData} {hostnames : Hostnames}
    {hostname port : String} (hg : Grantable data hostnames hostname) :
    ¬ Grantable data hostnames (hostname ++ ":" ++ port) := by
  intro hp
  obtain ⟨s, rfl, -, hs, -⟩ := grantable_withDomain hg
  obtain ⟨r, heq, -, hr, hcolon⟩ := grantable_withDomain hp
  have hlists := congrArg String.toList heq
  by_cases hd : hostnames.domain = ""
  · rw [withDomain, withDomain, if_pos hd, if_pos hd] at hlists
    apply hcolon
    rw [← hlists]
    simp
  · rw [withDomain, withDomain, if_neg hd, if_neg hd] at hlists
    simp only [String.toList_append, List.append_assoc] at hlists
    have hdomain : hostnames.domain.toList ++ (':' :: port.toList) = hostnames.domain.toList :=
      (Separated.cut_unique hs hr hlists).2
    have hlen := congrArg List.length hdomain
    simp only [List.length_append, List.length_cons] at hlen
    omega

variable {C : Type*} [DecidableEq C]

/-- What holds of the name of every claim holds of all that are claimed. -/
theorem claimed_of_claims {s : Registry.State C}
    {tr : List (Registry.State C × Registry.Event C)} {P : Hostname → Prop}
    (hrun : Run Registry.registry tr s)
    (hclaims : ∀ p ∈ tr, ∀ c h, p.2 = .claimHttpHostname c h → P h) :
    ∀ h ∈ s.claimedHttpHostnames, P h := by
  refine Path.invariant_where (M := Registry.registry)
    (C := fun _ e => ∀ c h, e = .claimHttpHostname c h → P h)
    (I := fun s => ∀ h ∈ s.claimedHttpHostnames, P h) ?_ hrun ?_ hclaims
  · intro t e hall _ hclaim h hh
    by_cases hw : Registry.wins h (t, e)
    · cases e with
      | claimHttpHostname c k =>
        have hk : k = h := by
          simp only [Registry.wins, Bool.and_eq_true, beq_iff_eq] at hw
          exact hw.1
        exact hk ▸ hclaim c k rfl
      | _ => simp [Registry.wins] at hw
    · exact hall h (Registry.only_wins_claim h (t, e) hw hh)
  · simp [Registry.registry, Registry.initial]

theorem claimed_grantable {data : CaseData} {hostnames : Hostnames} {s : Registry.State C}
    {tr : List (Registry.State C × Registry.Event C)} (hr : Run Registry.registry tr s)
    (hopen : ∀ p ∈ tr, ByOpen data hostnames p.1 p.2) :
    ∀ h ∈ s.claimedHttpHostnames, Grantable data hostnames h := by
  refine claimed_of_claims hr fun p hp c h he => ?_
  have hby := hopen p hp
  rw [he] at hby
  exact hby

theorem stripPort_eq {raw host : String} (h : stripPort raw = host) :
    raw = host ∨ ∃ port, raw = host ++ ":" ++ port := by
  unfold stripPort at h
  split at h
  · exact Or.inl h
  · next x before hdrop =>
    have hx : x = ':' := by
      have hhead := List.head?_dropWhile_not (· ≠ ':') raw.toList.reverse
      rw [hdrop] at hhead
      simpa using hhead
    have hcut := List.takeWhile_append_dropWhile (p := (· ≠ ':')) (l := raw.toList.reverse)
    rw [hdrop, hx] at hcut
    generalize raw.toList.reverse.takeWhile (· ≠ ':') = port at hcut
    have hraw : raw.toList = before.reverse ++ ':' :: port.reverse := by
      rw [← List.reverse_reverse raw.toList, ← hcut]
      simp
    refine Or.inr ⟨String.ofList port.reverse, ?_⟩
    rw [← String.toList_inj, hraw, ← h]
    simp

/-- The client that forward sends the request to. -/
def ForwardedTo {V : Type*} (lib : HostLib V) (s : Registry.State C) (request : Request V)
    (c : C) : Prop :=
  ∃ hostname, forward lib s request = .ok (c, hostname)

theorem forwardedTo_iff {V : Type*} {lib : HostLib V} {s : Registry.State C}
    (hi : Registry.Invariant s) {request : Request V} {c : C} :
    ForwardedTo lib s request c ↔ c ∈ s.clients ∧ forwardHostname lib request ∈ s.hostnames c := by
  rw [← HostnameLookup.getByHttpHostname_eq_some_iff hi]
  cases hf : getByHttpHostname s (forwardHostname lib request) with
  | none => simp [ForwardedTo, forward, hf]
  | some d => simp [ForwardedTo, forward, hf]

/-- What forward looks up, for a direct request that the chooser reads the host h from. -/
theorem forwardHostname_cases {V : Type*} {lib : HostLib V} {hostnames : Hostnames}
    {request : Request V} {router : Router} {host : String}
    (hr : chooser lib hostnames request = some (router, host)) (hd : request.Direct) :
    forwardHostname lib request = host ∨ forwardHostname lib request = "" ∨
      ∃ port, forwardHostname lib request = host ++ ":" ++ port := by
  obtain ⟨hostname, hx, hc⟩ := Option.map_eq_some_iff.mp hr
  rw [lib.direct request hd] at hx
  have hhost : stripPort hostname = host := by
    dsimp only at hc
    split at hc
    · exact (Prod.mk.inj hc).2
    · split at hc <;> exact (Prod.mk.inj hc).2
  unfold forwardHostname
  cases hg : request.get "host" with
  | none => exact Or.inr (Or.inl rfl)
  | some value =>
    cases hv : lib.toStr value with
    | none => simp [hv]
    | some text =>
      obtain rfl : text = hostname := by simpa [hg, hv] using hx
      rcases stripPort_eq hhost with heq | hport
      · exact Or.inl (by simpa [hv] using heq)
      · exact Or.inr (Or.inr (by simpa [hv] using hport))

/-- A request that is routed as one for h is forwarded to the owner of h exactly when the
Host header, as it stands, is a name of that client. A direct one: exactly when that header
is h, without a port. -/
theorem forwarded_to_owner_iff {V : Type*} (lib : HostLib V) (data : CaseData)
    (hostnames : Hostnames) {s : Registry.State C}
    {tr : List (Registry.State C × Registry.Event C)} (hrun : Run Registry.registry tr s)
    (hopen : ∀ p ∈ tr, ByOpen data hostnames p.1 p.2) {c : C} {h : Hostname}
    (hc : c ∈ s.clients) (hh : h ∈ s.hostnames c) {request : Request V}
    (hroute : chooser lib hostnames request = some (.forwarding, h)) :
    (ForwardedTo lib s request c ↔ forwardHostname lib request ∈ s.hostnames c) ∧
      (request.Direct → (ForwardedTo lib s request c ↔ forwardHostname lib request = h)) := by
  have hi := Registry.reachable_invariant ⟨tr, hrun⟩
  have hgrant (k : Hostname) (hk : k ∈ s.hostnames c) : Grantable data hostnames k :=
    claimed_grantable hrun hopen k (hi.own_claimed hc hk)
  have howner : ForwardedTo lib s request c ↔ forwardHostname lib request ∈ s.hostnames c := by
    rw [forwardedTo_iff hi]
    exact and_iff_right hc
  refine ⟨howner, fun hd => ?_⟩
  rw [howner]
  constructor
  · intro hmem
    rcases forwardHostname_cases hroute hd with heq | hempty | ⟨port, hport⟩
    · exact heq
    · exact absurd hempty (grantable_ne_empty (hgrant _ hmem))
    · rw [hport] at hmem
      exact absurd (hgrant _ hmem) (not_grantable_with_port (hgrant h hh))
  · intro heq
    rw [heq]
    exact hh

def hostHeaderLib : HostLib String where
  toStr := some
  extract request := ((request.get "host").bind some).or request.uriHost
  direct _ _ := rfl

def localHostnames : Hostnames :=
  HttpOpen.configuredHostnames HttpOpen.kelvinData "localhost" (some "api") (some "tcp") ""

def requestTo (host : String) : Request String :=
  ⟨Grouped.empty.insert "host" host, "/", none⟩

def opened : List (Registry.Event (Unit)) :=
  [.register (), .claimHttpHostname () "something.localhost",
    .addHttpHostname () "something.localhost"]

theorem something_grantable :
    Grantable HttpOpen.kelvinData localHostnames "something.localhost" := by
  exact ⟨"misty-sea-0042", some "something", ⟨by decide, by simp⟩, by decide⟩

theorem opened_byOpen : ∀ p ∈ trace Registry.registry Registry.initial opened,
    ByOpen HttpOpen.kelvinData localHostnames p.1 p.2 := by
  intro p hp
  simp only [opened, trace, List.mem_cons, List.not_mem_nil, or_false] at hp
  rcases hp with rfl | rfl | rfl
  · trivial
  · exact something_grantable
  · trivial

theorem forwarded_to_owner_default_port :
    ForwardedTo hostHeaderLib (replay Registry.registry Registry.initial opened)
      (requestTo "something.localhost") () := by
  have accepted : Accepts Registry.registry Registry.initial opened := by decide
  have hroute : chooser hostHeaderLib localHostnames (requestTo "something.localhost") =
      some (.forwarding, "something.localhost") := by decide
  have h := forwarded_to_owner_iff hostHeaderLib HttpOpen.kelvinData localHostnames
    (path_of_accepts accepted) opened_byOpen (c := ()) (h := "something.localhost") (by decide)
    (by decide) hroute
  exact (h.2 ⟨by decide, by decide⟩).mpr (by decide)

/-- With a port in the Host header the chooser finds the tunnel and forward does not. -/
theorem port_hides_tunnel : ∃ tr s,
    Run (Registry.registry (C := Unit)) tr s ∧
      (∀ p ∈ tr, ByOpen HttpOpen.kelvinData localHostnames p.1 p.2) ∧
      () ∈ s.clients ∧ "something.localhost" ∈ s.hostnames () ∧
      chooser hostHeaderLib localHostnames (requestTo "something.localhost:8080") =
        some (.forwarding, "something.localhost") ∧
      forward hostHeaderLib s (requestTo "something.localhost:8080") =
        .error .clientNotFound := by
  have accepted : Accepts Registry.registry (Registry.initial (C := Unit)) opened := by decide
  exact ⟨_, _, path_of_accepts accepted, opened_byOpen, by decide, by decide, by decide,
    by decide⟩

end HostRouting
