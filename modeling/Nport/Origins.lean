import Nport.AddrCodecs
import Nport.Forwardings

/-! Origins taken apart again: split_origin gives an origin to the crate url, and np lists its
tables from what comes back. The crate returns an IPv6 host in its brackets, which
from_host_and_port keeps. -/
namespace Origins

open Libnp
open HttpOpen (isValid isValidChar)
open PortOpen (PortOpened)
open Forwardings
open AddrText
open PlainNet (plainNet)

structure Url where
  scheme : String
  hostStr : Option String
  port : Option UInt16
  deriving DecidableEq

/-- Url::parse on the URLs of a scheme that is not special: an opaque host as it is written, an
IPv6 address in brackets, in a form of the parser's own, and the port that is given. -/
structure UrlLib (net : NetLib) where
  parse : String → Except String Url
  parse_opaque : ∀ host (port : UInt16), host ≠ "" → (∀ c ∈ host.toList, isValidChar c = true) →
    parse ("tcp://" ++ host ++ ":" ++ port.toNat.repr) = .ok ⟨"tcp", some host, some port⟩
  parse_ipv6 : ∀ ip (port : UInt16), ∃ text, net.parseIp text = some (.v6 ip) ∧
    parse ("tcp://" ++ ("[" ++ net.ipv6Text ip ++ "]") ++ ":" ++ port.toNat.repr) =
      .ok ⟨"tcp", some ("[" ++ text ++ "]"), some port⟩

/-- libnp::Error, as far as split_origin returns it. -/
inductive OriginError where
  | invalidOrigin (text : String)
  deriving DecidableEq, Repr

def protocolFromStr (s : String) : Except String PortProtocol :=
  if s = "tcp" then .ok .tcp else .error ("invalid port protocol " ++ s)

section Split

variable {net : NetLib} (urls : UrlLib net)

def splitOrigin (origin : String) : Except OriginError (PortProtocol × String × UInt16) :=
  match urls.parse origin with
  | .error e => .error (.invalidOrigin (origin ++ ": " ++ e))
  | .ok url =>
    match protocolFromStr url.scheme with
    | .error e => .error (.invalidOrigin e)
    | .ok protocol =>
      match url.hostStr with
      | none => .error (.invalidOrigin ("origin " ++ origin ++ " is missing a host"))
      | some host =>
        match url.port with
        | none => .error (.invalidOrigin ("origin " ++ origin ++ " is missing a port"))
        | some port => .ok (protocol, host, port)

structure PortForwarding where
  protocol : PortProtocol
  remoteAddr : Addr
  localAddr : Addr
  deriving DecidableEq

/-- Client::port_forwardings over the entries of the table; none is the panic of the unwrap. -/
def portForwardings : List (String × Addr) → Option (List PortForwarding)
  | [] => some []
  | (origin, localAddr) :: rest =>
    match splitOrigin urls origin with
    | .error _ => none
    | .ok (protocol, hostname, port) =>
      (portForwardings rest).map
        (⟨protocol, fromHostAndPort net hostname port, localAddr⟩ :: ·)

end Split

/-- The host is absent, a valid hostname or the text of an IP address. -/
def Covered (net : NetLib) (addr : Addr) : Prop :=
  ∀ host, addr.host = some host → isValid host = true ∨ (∃ ip : Ipv4Addr, host = ip.text) ∨
    ∃ ip, host = net.ipv6Text ip

def HasIpv6 (net : NetLib) (addr : Addr) : Prop := ∃ ip, addr.host = some (net.ipv6Text ip)

/-- An origin leads back to the protocol and address it was made of. -/
def SplitsBack {net : NetLib} (urls : UrlLib net) (protocol : PortProtocol) (addr : Addr) : Prop :=
  ∃ host, splitOrigin urls (portOrigin protocol addr) = .ok (protocol, host, addr.port) ∧
    fromHostAndPort net host addr.port = addr

/-! What comes back from an origin. -/

section Origin

variable {net : NetLib} {urls : UrlLib net} {host : String} {port : UInt16} {addr : Addr}

theorem splitOrigin_of_parse {origin : String}
    (h : urls.parse origin = .ok ⟨"tcp", some host, some port⟩) :
    splitOrigin urls origin = .ok (.tcp, host, port) := by
  rw [splitOrigin, h]
  rfl

theorem portOrigin_name (h : ':' ∉ host.toList) :
    portOrigin .tcp ⟨some host, port⟩ = "tcp://" ++ host ++ ":" ++ port.toNat.repr := by
  rw [portOrigin, display_name h, ← String.toList_inj]
  simp

theorem portOrigin_none :
    portOrigin .tcp ⟨none, port⟩ = portOrigin .tcp ⟨some defaultAddrHost, port⟩ := rfl

theorem portOrigin_ipv6 (ip : Ipv6Addr) :
    portOrigin .tcp ⟨some (net.ipv6Text ip), port⟩ =
      "tcp://" ++ ("[" ++ net.ipv6Text ip ++ "]") ++ ":" ++ port.toNat.repr := by
  have hdisplay : Addr.display ⟨some (net.ipv6Text ip), port⟩ =
      socketText net.ipv6Text ⟨.v6 ip, port⟩ := display_ipText (.v6 ip)
  rw [portOrigin, hdisplay, socketText, ← String.toList_inj]
  simp

theorem colon_not_mem_of_valid (h : ∀ c ∈ host.toList, isValidChar c = true) :
    ':' ∉ host.toList := fun hm => absurd (h ':' hm) (by decide)

theorem splitOrigin_name (hne : host ≠ "") (h : ∀ c ∈ host.toList, isValidChar c = true) :
    splitOrigin urls (portOrigin .tcp ⟨some host, port⟩) = .ok (.tcp, host, port) := by
  rw [portOrigin_name (colon_not_mem_of_valid h)]
  exact splitOrigin_of_parse (urls.parse_opaque host port hne h)

theorem ipv4_valid (ip : Ipv4Addr) :
    ip.text ≠ "" ∧ ∀ c ∈ ip.text.toList, isValidChar c = true := by
  refine ⟨ipText_ne plainNet (.v4 ip) (by decide), fun c hc => ?_⟩
  rcases Ipv4Addr.text_chars c hc with hd | rfl
  · have halnum : c.isAlphanum = true := HttpOpen.isAlphanum_iff.mpr (Or.inr hd)
    simp [HttpOpen.isValidChar, halnum]
  · decide

theorem isValid_ne_empty (h : isValid host = true) : host ≠ "" := by
  rintro rfl
  revert h
  decide

theorem fromHostAndPort_bracketed (text : String) :
    fromHostAndPort net ("[" ++ text ++ "]") port = ⟨some ("[" ++ text ++ "]"), port⟩ := by
  have hbracket : '[' ∈ ("[" ++ text ++ "]").toList := by simp
  have hloopback : isLoopback net ("[" ++ text ++ "]") = false := by
    rw [isLoopback]
    cases hp : net.parseIp ("[" ++ text ++ "]") with
    | none => rfl
    | some ip =>
      exfalso
      cases ip with
      | v4 ip =>
        rw [net.parseIp_v4 _ ip hp] at hbracket
        exact absurd (Ipv4Addr.text_chars '[' hbracket) (by decide)
      | v6 ip => exact absurd ((net.parseIp_v6 _ ip hp).2 '[' hbracket) (by decide)
  have hempty : "[" ++ text ++ "]" ≠ "" := text_ne hbracket (by decide)
  have hlocal : "[" ++ text ++ "]" ≠ localhost := text_ne hbracket (by decide)
  simp [fromHostAndPort, Addr.fromHostAndPort, hloopback, hempty, hlocal]

theorem splitOrigin_ipv6 (urls : UrlLib net) (ip : Ipv6Addr) (port : UInt16) :
    ∃ text, splitOrigin urls (portOrigin .tcp ⟨some (net.ipv6Text ip), port⟩) =
        .ok (.tcp, "[" ++ text ++ "]", port) ∧
      fromHostAndPort net ("[" ++ text ++ "]") port = ⟨some ("[" ++ text ++ "]"), port⟩ := by
  obtain ⟨text, _, hparse⟩ := urls.parse_ipv6 ip port
  rw [portOrigin_ipv6]
  exact ⟨text, splitOrigin_of_parse hparse, fromHostAndPort_bracketed text⟩

theorem bracketed_not_ipv6 (text : String) : ¬ HasIpv6 net ⟨some ("[" ++ text ++ "]"), port⟩ := by
  intro ⟨ip, heq⟩
  have hbracket : '[' ∈ (net.ipv6Text ip).toList := by
    rw [← Option.some.inj heq]
    simp
  exact absurd ((ipv6Text_spec net ip).2 '[' hbracket) (by decide)

theorem fromHostAndPort_of_fromStr {s : String} (h : fromStr net s = .ok addr)
    (hhost : addr.host = some host) : fromHostAndPort net host addr.port = addr := by
  obtain ⟨given, port, _, rfl⟩ := fromStr_ok h
  rcases fromHostAndPort_cases net given port with hdropped | hkept
  · rw [hdropped] at hhost
    cases hhost
  · rw [hkept] at hhost ⊢
    obtain rfl := Option.some.inj hhost
    exact hkept

theorem splitsBack_of_name {s : String} (urls : UrlLib net) (protocol : PortProtocol)
    (h : fromStr net s = .ok addr) (hcovered : Covered net addr) (hnot : ¬ HasIpv6 net addr) :
    SplitsBack urls protocol addr := by
  cases protocol
  obtain ⟨host, port⟩ := addr
  cases host with
  | none =>
    have hvalid := ipv4_valid ⟨#v[127, 0, 0, 1]⟩
    have htext : Ipv4Addr.text ⟨#v[127, 0, 0, 1]⟩ = defaultAddrHost := by decide
    rw [htext] at hvalid
    refine ⟨defaultAddrHost, ?_, ?_⟩
    · rw [portOrigin_none]
      exact splitOrigin_name hvalid.1 hvalid.2
    · have hdefault : defaultAddrHost = ipText net.ipv6Text defaultIp := defaultAddrHost_eq
      rw [hdefault]
      exact fromHostAndPort_ip (by decide)
  | some host =>
    have hvalid : host ≠ "" ∧ ∀ c ∈ host.toList, isValidChar c = true := by
      rcases hcovered host rfl with hname | ⟨ip, rfl⟩ | ⟨ip, rfl⟩
      · exact ⟨isValid_ne_empty hname, HttpOpen.isValid_chars hname⟩
      · exact ipv4_valid ip
      · exact absurd ⟨ip, rfl⟩ hnot
    exact ⟨host, splitOrigin_name hvalid.1 hvalid.2, fromHostAndPort_of_fromStr h rfl⟩

theorem splitOrigin_covered {s : String} (urls : UrlLib net) (protocol : PortProtocol)
    (h : fromStr net s = .ok addr) (hcovered : Covered net addr) :
    ∃ host, splitOrigin urls (portOrigin protocol addr) = .ok (protocol, host, addr.port) ∧
      (HasIpv6 net addr → ¬ HasIpv6 net (fromHostAndPort net host addr.port)) ∧
      (¬ HasIpv6 net addr → fromHostAndPort net host addr.port = addr) := by
  by_cases hipv6 : HasIpv6 net addr
  · obtain ⟨ip, hhost⟩ := hipv6
    obtain ⟨host, port⟩ := addr
    obtain rfl : host = some (net.ipv6Text ip) := hhost
    cases protocol
    obtain ⟨text, hsplit, hback⟩ := splitOrigin_ipv6 urls ip port
    refine ⟨_, hsplit, fun _ => ?_, fun hnot => absurd ⟨ip, rfl⟩ hnot⟩
    rw [hback]
    exact bracketed_not_ipv6 text
  · obtain ⟨host, hsplit, hback⟩ := splitsBack_of_name urls protocol h hcovered hipv6
    exact ⟨host, hsplit, fun hhas => absurd hhas hipv6, fun _ => hback⟩

theorem splitsBack_iff {s : String} (urls : UrlLib net) (protocol : PortProtocol)
    (h : fromStr net s = .ok addr) (hcovered : Covered net addr) :
    SplitsBack urls protocol addr ↔ ¬ HasIpv6 net addr := by
  obtain ⟨host, hsplit, hother, hsame⟩ := splitOrigin_covered urls protocol h hcovered
  constructor
  · intro ⟨host', hsplit', hback⟩ hipv6
    rw [hsplit] at hsplit'
    obtain rfl : host = host' := by simpa using hsplit'
    apply hother hipv6
    rwa [hback]
  · intro hnot
    exact ⟨host, hsplit, hsame hnot⟩

end Origin

/-! The table of ports, and what port_register stored in it. -/

/-- What port_register stores of an announcement, with the addresses it was given. -/
def stored (t : Tables) : Announcement → List PortForwarding
  | .portOpened msg =>
    match portRegister t msg, PortProtocol.tryFrom msg.protocol with
    | .ok _, some protocol =>
      [⟨protocol, Addr.fromAddress msg.remoteAddress, Addr.fromAddress msg.localAddress⟩]
    | _, _ => []
  | _ => []

def storedBy (t : Tables) : List Announcement → List PortForwarding
  | [] => []
  | a :: rest => stored t a ++ storedBy (t.apply a) rest

def tablesAfter (announcements : List Announcement) : Tables :=
  announcements.foldl Tables.apply .empty

def PortForwarding.origin (f : PortForwarding) : String := portOrigin f.protocol f.remoteAddr

section Table

variable {t : Tables}

theorem stored_fresh {msg : PortOpened} {protocol : PortProtocol} (he : msg.error = none)
    (hp : PortProtocol.tryFrom msg.protocol = some protocol)
    (ht : t.port (portOrigin protocol (Addr.fromAddress msg.remoteAddress)) = none) :
    stored t (.portOpened msg) =
      [⟨protocol, Addr.fromAddress msg.remoteAddress, Addr.fromAddress msg.localAddress⟩] := by
  simp [stored, portRegister, he, portOriginFromRaw, hp, ht]

theorem stored_nil_or_fresh (t : Tables) (a : Announcement) :
    (stored t a = [] ∧ (t.apply a).port = t.port) ∨
      ∃ msg protocol, a = .portOpened msg ∧ msg.error = none ∧
        PortProtocol.tryFrom msg.protocol = some protocol ∧
        t.port (portOrigin protocol (Addr.fromAddress msg.remoteAddress)) = none := by
  cases a with
  | httpOpened msg => exact Or.inl ⟨rfl, apply_httpOpened_port t msg⟩
  | httpClosed msg =>
    refine Or.inl ⟨rfl, ?_⟩
    rw [apply_httpClosed]
  | portOpened msg =>
    cases he : msg.error with
    | some error =>
      refine Or.inl ⟨by simp [stored, portRegister, he], ?_⟩
      rw [apply_portOpened_error t he]
    | none =>
      cases hp : PortProtocol.tryFrom msg.protocol with
      | none =>
        refine Or.inl ⟨by simp [stored, hp], ?_⟩
        simp [Tables.apply, Tables.register, portRegister, he, portOriginFromRaw, hp]
      | some protocol =>
        cases ht : t.port (portOrigin protocol (Addr.fromAddress msg.remoteAddress)) with
        | none => exact Or.inr ⟨msg, protocol, rfl, he, hp, ht⟩
        | some old =>
          left
          simp [stored, Tables.apply, Tables.register, portRegister, he, portOriginFromRaw, hp, ht]

theorem port_apply_iff (t : Tables) (a : Announcement) (origin : String) (addr : Addr) :
    (t.apply a).port origin = some addr ↔
      t.port origin = some addr ∨ ∃ f ∈ stored t a, f.origin = origin ∧ f.localAddr = addr := by
  rcases stored_nil_or_fresh t a with ⟨hnil, hsame⟩ | ⟨msg, protocol, rfl, he, hp, ht⟩
  · simp [hnil, hsame]
  · have ho : portOriginFromRaw msg.protocol msg.remoteAddress =
        some (portOrigin protocol (Addr.fromAddress msg.remoteAddress)) := by
      rw [portOriginFromRaw, hp]
      rfl
    rw [stored_fresh he hp ht, apply_portOpened t he ho ht]
    by_cases hkey : portOrigin protocol (Addr.fromAddress msg.remoteAddress) = origin
    · subst hkey
      simp [ht, PortForwarding.origin]
    · simp [Ne.symm hkey, hkey, PortForwarding.origin]

theorem port_foldl_iff (announcements : List Announcement) (t : Tables) (origin : String)
    (addr : Addr) :
    (announcements.foldl Tables.apply t).port origin = some addr ↔
      t.port origin = some addr ∨
        ∃ f ∈ storedBy t announcements, f.origin = origin ∧ f.localAddr = addr := by
  induction announcements generalizing t with
  | nil => simp [storedBy]
  | cons a rest ih =>
    rw [List.foldl_cons, ih, port_apply_iff, storedBy]
    simp only [List.mem_append, or_and_right, exists_or, or_assoc]

theorem port_tablesAfter_iff (announcements : List Announcement) (origin : String)
    (addr : Addr) :
    (tablesAfter announcements).port origin = some addr ↔
      ∃ f ∈ storedBy .empty announcements, f.origin = origin ∧ f.localAddr = addr := by
  rw [tablesAfter, port_foldl_iff]
  simp [Tables.empty]

theorem storedBy_origins (announcements : List Announcement) (t : Tables) :
    ((storedBy t announcements).map PortForwarding.origin).Nodup ∧
      ∀ f ∈ storedBy t announcements, t.port f.origin = none := by
  induction announcements generalizing t with
  | nil => simp [storedBy]
  | cons a rest ih =>
    obtain ⟨hnodup, hfresh⟩ := ih (t.apply a)
    have hbefore : ∀ g ∈ storedBy (t.apply a) rest, t.port g.origin = none := by
      intro g hg
      by_contra hsome
      exact port_kept a hsome (hfresh g hg)
    rcases stored_nil_or_fresh t a with ⟨hnil, _⟩ | ⟨msg, protocol, rfl, he, hp, ht⟩
    · rw [storedBy, hnil, List.nil_append]
      exact ⟨hnodup, hbefore⟩
    · have hstored := stored_fresh he hp ht
      rw [storedBy, hstored, List.singleton_append, List.map_cons, List.nodup_cons]
      refine ⟨⟨fun hm => ?_, hnodup⟩, fun f hf => ?_⟩
      · obtain ⟨g, hg, horigin⟩ := List.mem_map.mp hm
        have hport := (port_apply_iff t (.portOpened msg) g.origin
          (Addr.fromAddress msg.localAddress)).mpr
          (Or.inr ⟨_, by rw [hstored]; exact List.mem_singleton_self _, horigin.symm, rfl⟩)
        rw [hfresh g hg] at hport
        cases hport
      · rcases List.mem_cons.mp hf with rfl | hf
        · exact ht
        · exact hbefore f hf

end Table

structure Enumerates (entries : List (String × Addr)) (table : String → Option Addr) : Prop where
  nodup : (entries.map Prod.fst).Nodup
  mem_iff : ∀ origin addr, (origin, addr) ∈ entries ↔ table origin = some addr

section Listing

variable {net : NetLib} {urls : UrlLib net}

def Lists (urls : UrlLib net) (entry : String × Addr) (f : PortForwarding) : Prop :=
  ∃ host port, splitOrigin urls entry.1 = .ok (f.protocol, host, port) ∧
    f.remoteAddr = fromHostAndPort net host port ∧ f.localAddr = entry.2

theorem lists_iff {entry : String × Addr} {f : PortForwarding} {protocol : PortProtocol}
    {host : String} {port : UInt16} (h : splitOrigin urls entry.1 = .ok (protocol, host, port)) :
    Lists urls entry f ↔ f = ⟨protocol, fromHostAndPort net host port, entry.2⟩ := by
  rw [Lists, h]
  constructor
  · intro ⟨host', port', heq, hremote, hlocal⟩
    obtain ⟨protocol', remoteAddr, localAddr⟩ := f
    cases heq
    obtain rfl := hremote
    obtain rfl := hlocal
    rfl
  · rintro rfl
    exact ⟨host, port, rfl, rfl, rfl⟩

theorem portForwardings_mem {entries : List (String × Addr)} {listed : List PortForwarding}
    (h : portForwardings urls entries = some listed) (f : PortForwarding) :
    f ∈ listed ↔ ∃ entry ∈ entries, Lists urls entry f := by
  induction entries generalizing listed with
  | nil =>
    obtain rfl := Option.some.inj h
    simp
  | cons entry rest ih =>
    obtain ⟨origin, localAddr⟩ := entry
    rw [portForwardings] at h
    split at h
    · cases h
    · next protocol hostname port hsplit =>
      obtain ⟨tail, htail, rfl⟩ := Option.map_eq_some_iff.mp h
      rw [List.mem_cons, List.exists_mem_cons_iff, ih htail, lists_iff hsplit]

theorem portForwardings_origins {entries : List (String × Addr)} {listed : List PortForwarding}
    (h : portForwardings urls entries = some listed)
    (hown : ∀ entry ∈ entries, ∀ f, Lists urls entry f → f.origin = entry.1) :
    listed.map PortForwarding.origin = entries.map Prod.fst := by
  induction entries generalizing listed with
  | nil =>
    obtain rfl := Option.some.inj h
    rfl
  | cons entry rest ih =>
    obtain ⟨origin, localAddr⟩ := entry
    rw [portForwardings] at h
    split at h
    · cases h
    · next protocol hostname port hsplit =>
      obtain ⟨tail, htail, rfl⟩ := Option.map_eq_some_iff.mp h
      have hfirst := hown _ List.mem_cons_self _ ((lists_iff hsplit).mpr rfl)
      rw [List.map_cons, List.map_cons, hfirst,
        ih htail fun e he => hown e (List.mem_cons_of_mem _ he)]

theorem portForwardings_isSome (urls : UrlLib net) {entries : List (String × Addr)}
    (h : ∀ entry ∈ entries, ∃ parts, splitOrigin urls entry.1 = .ok parts) :
    ∃ listed, portForwardings urls entries = some listed := by
  induction entries with
  | nil => exact ⟨[], rfl⟩
  | cons entry rest ih =>
    obtain ⟨listed, hlisted⟩ := ih fun e he => h e (List.mem_cons_of_mem _ he)
    obtain ⟨⟨protocol, host, port⟩, hsplit⟩ := h entry List.mem_cons_self
    exact ⟨_, by rw [portForwardings, hsplit, hlisted]; rfl⟩

theorem lists_stored {s : String} {f : PortForwarding} {entry : String × Addr}
    (urls : UrlLib net) (hs : fromStr net s = .ok f.remoteAddr)
    (hcovered : Covered net f.remoteAddr) (horigin : f.origin = entry.1)
    (hlocal : f.localAddr = entry.2) :
    (∃ parts, splitOrigin urls entry.1 = .ok parts) ∧
      (∀ g, Lists urls entry g → ¬ HasIpv6 net g.remoteAddr) ∧
      (¬ HasIpv6 net f.remoteAddr → ∀ g, Lists urls entry g ↔ g = f) := by
  obtain ⟨host, hsplit, hother, hback⟩ := splitOrigin_covered urls f.protocol hs hcovered
  have hentry : splitOrigin urls entry.1 = .ok (f.protocol, host, f.remoteAddr.port) := by
    rw [← horigin]
    exact hsplit
  refine ⟨⟨_, hentry⟩, fun g hg => ?_, fun hnot g => ?_⟩
  · rw [(lists_iff hentry).mp hg]
    by_cases hipv6 : HasIpv6 net f.remoteAddr
    · exact hother hipv6
    · rw [hback hipv6]
      exact hipv6
  · rw [lists_iff hentry, hback hnot, ← hlocal]

end Listing

/-- Every address that a text can give splits back from its origin when its host is no IPv6
address, and a table of such addresses is listed as it was stored. Only then. -/
theorem origins_split_back_iff {net : NetLib} (urls : UrlLib net) :
    (∀ (protocol : PortProtocol) s addr, fromStr net s = .ok addr → Covered net addr →
      (SplitsBack urls protocol addr ↔ ¬ HasIpv6 net addr)) ∧
    (∀ announcements entries, Enumerates entries (tablesAfter announcements).port →
      (∀ f ∈ storedBy .empty announcements,
        (∃ s, fromStr net s = .ok f.remoteAddr) ∧ Covered net f.remoteAddr) →
      ((∃ listed, portForwardings urls entries = some listed ∧
          listed.Perm (storedBy .empty announcements)) ↔
        ∀ f ∈ storedBy .empty announcements, ¬ HasIpv6 net f.remoteAddr)) := by
  refine ⟨fun protocol s addr h hcovered => splitsBack_iff urls protocol h hcovered, ?_⟩
  intro announcements entries henum hall
  have hentry (entry : String × Addr) : entry ∈ entries ↔
      ∃ f ∈ storedBy .empty announcements, f.origin = entry.1 ∧ f.localAddr = entry.2 := by
    rw [← port_tablesAfter_iff]
    exact henum.mem_iff entry.1 entry.2
  have hlists (entry : String × Addr) (he : entry ∈ entries) :
      ∃ f ∈ storedBy .empty announcements, f.origin = entry.1 ∧
        (∃ parts, splitOrigin urls entry.1 = .ok parts) ∧
        (∀ g, Lists urls entry g → ¬ HasIpv6 net g.remoteAddr) ∧
        (¬ HasIpv6 net f.remoteAddr → ∀ g, Lists urls entry g ↔ g = f) := by
    obtain ⟨f, hf, horigin, hlocal⟩ := (hentry entry).mp he
    obtain ⟨⟨s, hs⟩, hcovered⟩ := hall f hf
    exact ⟨f, hf, horigin, lists_stored urls hs hcovered horigin hlocal⟩
  constructor
  · intro ⟨listed, hlist, hperm⟩ f hf
    obtain ⟨entry, he, hf⟩ := (portForwardings_mem hlist f).mp (hperm.mem_iff.mpr hf)
    obtain ⟨_, _, _, _, hnone, _⟩ := hlists entry he
    exact hnone f hf
  · intro hnot
    obtain ⟨listed, hlist⟩ := portForwardings_isSome urls fun entry he => by
      obtain ⟨_, _, _, hsplit, _⟩ := hlists entry he
      exact hsplit
    have hown : ∀ entry ∈ entries, ∀ g, Lists urls entry g →
        g ∈ storedBy .empty announcements ∧ g.origin = entry.1 := by
      intro entry he g hg
      obtain ⟨f, hf, horigin, _, _, hsame⟩ := hlists entry he
      rw [(hsame (hnot f hf) g).mp hg]
      exact ⟨hf, horigin⟩
    have hnodup : listed.Nodup := by
      apply List.Nodup.of_map PortForwarding.origin
      rw [portForwardings_origins hlist fun entry he g hg => (hown entry he g hg).2]
      exact henum.nodup
    have hstored := (storedBy_origins announcements .empty).1.of_map
    refine ⟨listed, hlist, (List.perm_ext_iff_of_nodup hnodup hstored).mpr fun g => ?_⟩
    rw [portForwardings_mem hlist]
    constructor
    · intro ⟨entry, he, hg⟩
      exact (hown entry he g hg).1
    · intro hg
      obtain ⟨⟨s, hs⟩, hcovered⟩ := hall g hg
      exact ⟨(g.origin, g.localAddr), (hentry _).mpr ⟨g, hg, rfl, rfl⟩,
        ((lists_stored urls hs hcovered rfl rfl).2.2 (hnot g hg) g).mpr rfl⟩

/-! The generic syntax of URIs does what is relied on. -/

section Plain

open UriSyntax

def parsePlain (s : String) : Except String Url :=
  if "tcp://".toList <+: s.toList then
    let a := afterUserinfo (authority (s.toList.drop 6))
    .ok ⟨"tcp", some (String.ofList (hostOf a)), (portText a).bind LocalUrl.parseU16⟩
  else .error "relative URL without a base"

theorem parsePlain_host {host : String} (port : UInt16)
    (hchars : ∀ c ∈ host.toList, isDelimiter c = false ∧ c ≠ '@')
    (hplain : UriSyntax.PlainHost host.toList) :
    parsePlain ("tcp://" ++ host ++ ":" ++ port.toNat.repr) =
      .ok ⟨"tcp", some host, some port⟩ := by
  have hdrop : ("tcp://" ++ host ++ ":" ++ port.toNat.repr).toList.drop 6 =
      host.toList ++ ':' :: port.toNat.repr.toList := by simp
  have hall : ∀ c ∈ host.toList ++ ':' :: port.toNat.repr.toList,
      isDelimiter c = false ∧ c ≠ '@' := by
    intro c hc
    rcases List.mem_append.mp hc with hc | hc
    · exact hchars c hc
    · rcases List.mem_cons.mp hc with rfl | hc
      · decide
      · exact ⟨(LocalUrl.digit_plain hc).1, (LocalUrl.digit_plain hc).2.1⟩
  have hauthority : authority (host.toList ++ ':' :: port.toNat.repr.toList) =
      host.toList ++ ':' :: port.toNat.repr.toList := by
    have happend := authority_append (b := []) fun c hc => (hall c hc).1
    simpa [authority] using happend
  have hat : '@' ∉ host.toList ++ ':' :: port.toNat.repr.toList := fun hm => (hall '@' hm).2 rfl
  have hcolon : ':' ∉ port.toNat.repr.toList := LocalUrl.colon_not_mem_repr _
  have hprefix : "tcp://".toList <+: ("tcp://" ++ host ++ ":" ++ port.toNat.repr).toList := by
    simp [List.append_assoc]
  rw [parsePlain, if_pos hprefix, hdrop, hauthority, afterUserinfo_eq_self hat]
  simp only [hostOf_append_colon.mpr hplain, portText_append List.mem_cons_self,
    portText_colon hcolon, Option.bind_some, LocalUrl.parseU16_repr, String.ofList_toList]

theorem valid_plain {host : String} (h : ∀ c ∈ host.toList, isValidChar c = true) :
    (∀ c ∈ host.toList, isDelimiter c = false ∧ c ≠ '@') ∧
      UriSyntax.PlainHost host.toList := by
  refine ⟨fun c hc => ⟨not_delimiter_of (h c hc) (by decide), ?_⟩,
    Or.inl ⟨?_, colon_not_mem_of_valid h⟩⟩
  · rintro rfl
    exact absurd (h '@' hc) (by decide)
  · intro hhead
    exact absurd (h '[' (List.mem_of_mem_head? hhead)) (by decide)

theorem literal_plain {text : String} (h : ∀ c ∈ text.toList, isAddressChar c = true) :
    (∀ c ∈ ("[" ++ text ++ "]").toList, isDelimiter c = false ∧ c ≠ '@') ∧
      UriSyntax.PlainHost ("[" ++ text ++ "]").toList := by
  have htext : ("[" ++ text ++ "]").toList = ('[' :: text.toList) ++ [']'] := by simp
  rw [htext]
  constructor
  · intro c hc
    simp only [List.mem_append, List.mem_cons, List.not_mem_nil, or_false] at hc
    rcases hc with (rfl | hc) | rfl
    · decide
    · refine ⟨not_delimiter_of_isAddressChar (h c hc), ?_⟩
      rintro rfl
      exact absurd (h '@' hc) (by decide)
    · decide
  · refine Or.inr ⟨rfl, '[' :: text.toList, rfl, fun hm => ?_⟩
    rcases List.mem_cons.mp hm with hm | hm
    · exact absurd hm (by decide)
    · exact absurd (h ']' hm) (by decide)

def plainUrls : UrlLib plainNet where
  parse := parsePlain
  parse_opaque _ port _ h := parsePlain_host port (valid_plain h).1 (valid_plain h).2
  parse_ipv6 ip port := by
    have hliteral := literal_plain (ipv6Text_spec plainNet ip).2
    exact ⟨plainNet.ipv6Text ip, plainNet.parseIp_text (.v6 ip),
      parsePlain_host port hliteral.1 hliteral.2⟩

end Plain

def exampleOpened : Announcement :=
  .portOpened ⟨0, some ⟨some "example.com", 80⟩, some ⟨none, 8000⟩, none⟩

def exampleForwarding : PortForwarding := ⟨.tcp, ⟨some "example.com", 80⟩, ⟨none, 8000⟩⟩

theorem exampleOpened_enumerates :
    Enumerates [(exampleForwarding.origin, exampleForwarding.localAddr)]
      (tablesAfter [exampleOpened]).port := by
  refine ⟨List.nodup_singleton _, fun origin addr => ?_⟩
  rw [port_tablesAfter_iff]
  have hstored : storedBy .empty [exampleOpened] = [exampleForwarding] := rfl
  simp [hstored, eq_comm]

theorem origins_split_back_name :
    fromStr plainNet "example.com:80" = .ok ⟨some "example.com", 80⟩ ∧
      SplitsBack plainUrls .tcp ⟨some "example.com", 80⟩ ∧
      ∃ listed, portForwardings plainUrls
          [(exampleForwarding.origin, exampleForwarding.localAddr)] = some listed ∧
        listed.Perm [exampleForwarding] := by
  have hparsed : fromStr plainNet "example.com:80" = .ok ⟨some "example.com", 80⟩ := by decide
  have hvalid : isValid "example.com" = true := by decide
  have hcovered : Covered plainNet ⟨some "example.com", 80⟩ := by
    intro host h
    obtain rfl := Option.some.inj h
    exact Or.inl hvalid
  have hname : ¬ HasIpv6 plainNet ⟨some "example.com", 80⟩ := by
    intro ⟨ip, h⟩
    have hcolon := colon_mem_ipv6Text plainNet ip
    rw [← Option.some.inj h] at hcolon
    exact absurd hcolon (by decide)
  have hsplit := origins_split_back_iff plainUrls
  have hone {P : PortForwarding → Prop} (h : P exampleForwarding) :
      ∀ f ∈ storedBy .empty [exampleOpened], P f := List.forall_mem_singleton.mpr h
  exact ⟨hparsed, (hsplit.1 .tcp _ _ hparsed hcovered).mpr hname,
    (hsplit.2 [exampleOpened] _ exampleOpened_enumerates (hone ⟨⟨_, hparsed⟩, hcovered⟩)).mpr
      (hone hname)⟩

/-- An IPv6 address comes back with brackets, as another address. -/
theorem ipv6_comes_back_bracketed :
    fromStr plainNet "[2001:db8:1:2:3:4:5:6]:80" = .ok ⟨some "2001:db8:1:2:3:4:5:6", 80⟩ ∧
      splitOrigin plainUrls (portOrigin .tcp ⟨some "2001:db8:1:2:3:4:5:6", 80⟩) =
        .ok (.tcp, "[2001:db8:1:2:3:4:5:6]", 80) ∧
      fromHostAndPort plainNet "[2001:db8:1:2:3:4:5:6]" 80 =
        ⟨some "[2001:db8:1:2:3:4:5:6]", 80⟩ ∧
      ¬ SplitsBack plainUrls .tcp ⟨some "2001:db8:1:2:3:4:5:6", 80⟩ := by
  have hsplit : splitOrigin plainUrls (portOrigin .tcp ⟨some "2001:db8:1:2:3:4:5:6", 80⟩) =
      .ok (.tcp, "[2001:db8:1:2:3:4:5:6]", 80) := by decide
  refine ⟨by decide, hsplit, by decide, ?_⟩
  intro ⟨host, hsplit', hback⟩
  rw [hsplit] at hsplit'
  obtain rfl : "[2001:db8:1:2:3:4:5:6]" = host := by simpa using hsplit'
  revert hback
  decide

end Origins
