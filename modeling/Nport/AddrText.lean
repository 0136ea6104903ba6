import Nport.LocalUrl
import Nport.Separated

/-! An Addr as text and in serde's data model: from_str tries a socket address and then a host
with a port, Display puts an IPv6 host in brackets and a default in the place of no host. The
parsers of the standard library are parameters, with what is documented of them. -/
namespace AddrText

open Libnp
open UriSyntax (isAddressChar)
open LocalUrl (parseU16)

structure Ipv4Addr where
  octets : Vector UInt8 4
  deriving DecidableEq

structure Ipv6Addr where
  segments : Vector UInt16 8
  deriving DecidableEq

inductive IpAddr where
  | v4 (addr : Ipv4Addr)
  | v6 (addr : Ipv6Addr)
  deriving DecidableEq

/-- IpAddr::is_loopback: 127.0.0.0/8 and ::1. -/
def IpAddr.isLoopback : IpAddr → Bool
  | .v4 addr => addr.octets[0] == 127
  | .v6 addr => addr.segments == #v[0, 0, 0, 0, 0, 0, 0, 1]

/-- SocketAddr, of its fields those that from_socket_addr reads. -/
structure SocketAddr where
  ip : IpAddr
  port : UInt16
  deriving DecidableEq

def Ipv4Addr.fields (addr : Ipv4Addr) : List (List Char) :=
  addr.octets.toList.map fun n => n.toNat.repr.toList

/-- fmt::Display for Ipv4Addr -/
def Ipv4Addr.text (addr : Ipv4Addr) : String := String.ofList (['.'].intercalate addr.fields)

def ipText (ipv6Text : Ipv6Addr → String) : IpAddr → String
  | .v4 addr => addr.text
  | .v6 addr => ipv6Text addr

/-- fmt::Display for SocketAddr -/
def socketText (ipv6Text : Ipv6Addr → String) (addr : SocketAddr) : String :=
  match addr.ip with
  | .v4 ip => ip.text ++ ":" ++ addr.port.toNat.repr
  | .v6 ip => "[" ++ ipv6Text ip ++ "]" ++ ":" ++ addr.port.toNat.repr

/-- fmt::Display for Ipv6Addr, IpAddr::from_str and SocketAddr::from_str. What is printed is
read, an IPv4 address in no other form, and an IPv6 address has two colons at least. -/
structure NetLib where
  ipv6Text : Ipv6Addr → String
  parseIp : String → Option IpAddr
  parseSocketAddr : String → Option SocketAddr
  parseIp_text : ∀ ip, parseIp (ipText ipv6Text ip) = some ip
  parseIp_v4 : ∀ s addr, parseIp s = some (.v4 addr) → s = addr.text
  parseIp_v6 : ∀ s addr, parseIp s = some (.v6 addr) →
    2 ≤ s.toList.count ':' ∧ ∀ c ∈ s.toList, isAddressChar c = true
  parseSocketAddr_text : ∀ addr, parseSocketAddr (socketText ipv6Text addr) = some addr
  parseSocketAddr_v4 : ∀ s addr port, parseSocketAddr s = some ⟨.v4 addr, port⟩ →
    ∃ digits, s = addr.text ++ ":" ++ digits ∧ parseU16 digits.toList = some port
  parseSocketAddr_v6 : ∀ s addr port, parseSocketAddr s = some ⟨.v6 addr, port⟩ →
    2 ≤ s.toList.count ':'

/-- fmt::Display for AddrParseError -/
def addrParseError : String := "invalid socket address syntax"

/-- Where u16::from_str stops in the digits, as fmt::Display for ParseIntError has it. -/
def digitsError (value : ℕ) : List Char → String
  | [] => "invalid digit found in string"
  | c :: rest =>
    if c.isDigit then
      let next := 10 * value + (c.toNat - '0'.toNat)
      if next < 65536 then digitsError next rest else "number too large to fit in target type"
    else "invalid digit found in string"

def parseIntError (l : List Char) : String :=
  if l = [] then "cannot parse integer from empty string"
  else digitsError 0 (if l.head? = some '+' then l.tail else l)

section Addr

variable (net : NetLib)

def isLoopback (addr : String) : Bool := ((net.parseIp addr).map IpAddr.isLoopback).getD false

def fromHostAndPort (host : String) (port : UInt16) : Addr :=
  Addr.fromHostAndPort (isLoopback net) host port

def fromPort (port : UInt16) : Addr := ⟨none, port⟩

def fromSocketAddr (addr : SocketAddr) : Addr :=
  fromHostAndPort net (ipText net.ipv6Text addr.ip) addr.port

def withPort (addr : Addr) (port : UInt16) : Addr := ⟨addr.host, port⟩

def tryToSocketAddr (addr : Addr) : Except String SocketAddr :=
  match net.parseSocketAddr addr.display with
  | some addr => .ok addr
  | none => .error addrParseError

def tryParseSocketAddr (s : String) : Except String Addr :=
  match net.parseSocketAddr s with
  | some addr => .ok (fromSocketAddr net addr)
  | none => .error addrParseError

def tryParseHostname (s : String) : Except String Addr :=
  match s.toList.splitOn ':' with
  | [host, digits] =>
    match parseU16 digits with
    | some port => .ok (fromHostAndPort net (String.ofList host) port)
    | none => .error (parseIntError digits)
  | _ => .error ("invalid host:port " ++ s)

def fromStr (s : String) : Except String Addr :=
  match tryParseSocketAddr net s with
  | .ok addr => .ok addr
  | .error _ => tryParseHostname net s

/-! The codecs of serde. -/

/-- What Serialize for Addr gives the serializer. -/
inductive Serialized where
  | str (s : String)
  | u16 (port : UInt16)
  deriving DecidableEq

def serialize (addr : Addr) : Serialized :=
  match addr.host with
  | some _ => .str addr.display
  | none => .u16 addr.port

def visitI64 (v : Int64) : Except String Addr :=
  if 0 ≤ v ∧ v ≤ 65535 then .ok ⟨none, v.toUInt64.toUInt16⟩
  else .error ("port number must be >= 0 and < " ++ "65535" ++ ", not " ++ toString v.toInt)

/-- AddrVisitor::visit_u64: the cast wraps. -/
def visitU64 (v : UInt64) : Except String Addr := visitI64 v.toInt64

def visitStr (v : String) : Except String Addr :=
  match fromStr net v with
  | .ok addr => .ok addr
  | .error e => .error ("could not parse " ++ v ++ " as an address: " ++ e)

/-- What deserialize_any can give AddrVisitor: smaller integers come to these two, and a floating
point number as the integer it is cast to. Anything else is an error of serde. -/
inductive Delivered where
  | i64 (v : Int64)
  | u64 (v : UInt64)
  | f64 (asI64 : Int64)
  | str (v : String)
  | other (unexpected : String)
  deriving DecidableEq

def expecting : String := "a port number or an address in host:port form"

def deserialize : Delivered → Except String Addr
  | .i64 v => visitI64 v
  | .u64 v => visitU64 v
  | .f64 asI64 => visitI64 asI64
  | .str v => visitStr net v
  | .other unexpected => .error ("invalid type: " ++ unexpected ++ ", expected " ++ expecting)

/-- A format gives back a text as it is, and a number as an integer of either kind. -/
inductive Delivers : Serialized → Delivered → Prop where
  | str {s} : Delivers (.str s) (.str s)
  | i64 {port : UInt16} {v} : v.toInt = (port.toNat : ℤ) → Delivers (.u16 port) (.i64 v)
  | u64 {port : UInt16} {v} : v.toNat = port.toNat → Delivers (.u16 port) (.u64 v)

end Addr

/-! What the hosts are written with. -/

theorem text_ne {a b : String} {c : Char} (ha : c ∈ a.toList) (hb : c ∉ b.toList) :
    a ≠ b := by
  rintro rfl
  exact hb ha

theorem Ipv4Addr.fields_digits {addr : Ipv4Addr} {field : List Char} (h : field ∈ addr.fields) :
    ∀ c ∈ field, c.isDigit = true := by
  obtain ⟨n, _, rfl⟩ := List.mem_map.mp h
  intro c hc
  exact LocalUrl.isDigit_of_mem_repr hc

theorem Ipv4Addr.splitOn_text (addr : Ipv4Addr) : addr.text.toList.splitOn '.' = addr.fields := by
  rw [text, String.toList_ofList]
  refine List.splitOn_intercalate '.' (fun field hf hm => ?_) ?_
  · exact absurd (fields_digits hf '.' hm) (by decide)
  · intro hnil
    have hlen := congrArg List.length hnil
    simp [fields] at hlen

theorem Ipv4Addr.text_chars {addr : Ipv4Addr} :
    ∀ c ∈ addr.text.toList, c.isDigit = true ∨ c = '.' := by
  apply (Separated.forall_fields_iff (p := fun c => c.isDigit = true ∨ c = '.') (Or.inr rfl)
    addr.text.toList).mpr
  rw [splitOn_text]
  intro field hf c hc
  exact Or.inl (fields_digits hf c hc)

theorem Ipv4Addr.colon_not_mem (addr : Ipv4Addr) : ':' ∉ addr.text.toList := by
  intro h
  have hc := text_chars ':' h
  revert hc
  decide

section Parsed

variable {net : NetLib} {s host digits : String} {port : UInt16} {addr : Addr}

theorem ipv6Text_spec (net : NetLib) (ip : Ipv6Addr) : 2 ≤ (net.ipv6Text ip).toList.count ':' ∧
    ∀ c ∈ (net.ipv6Text ip).toList, isAddressChar c = true :=
  net.parseIp_v6 _ ip (net.parseIp_text (.v6 ip))

theorem colon_mem_ipv6Text (net : NetLib) (ip : Ipv6Addr) : ':' ∈ (net.ipv6Text ip).toList := by
  have htwo := (ipv6Text_spec net ip).1
  exact List.count_pos_iff.mp (by omega)

theorem isLoopback_ipText (ip : IpAddr) :
    isLoopback net (ipText net.ipv6Text ip) = ip.isLoopback := by
  rw [isLoopback, net.parseIp_text]
  rfl

theorem fromHostAndPort_ip {ip : IpAddr} (h : ip.isLoopback = true) :
    fromHostAndPort net (ipText net.ipv6Text ip) port = ⟨none, port⟩ := by
  simp [fromHostAndPort, Addr.fromHostAndPort, isLoopback_ipText, h]

theorem colon_not_mem_of_parseU16 {l : List Char} (h : parseU16 l = some port) : ':' ∉ l := by
  unfold parseU16 at h
  generalize hd : (if l.head? = some '+' then l.tail else l) = digits at h
  have hall : digits.all Char.isDigit = true := by
    by_contra hnot
    rw [if_neg fun hc => hnot hc.2.1] at h
    cases h
  intro hm
  have hin : ':' ∈ digits := by
    rw [← hd]
    split
    · next hplus =>
      obtain ⟨rest, rfl⟩ := List.head?_eq_some_iff.mp hplus
      simpa using hm
    · exact hm
  exact absurd (List.all_eq_true.mp hall ':' hin) (by decide)

theorem fromStr_name (hhost : ':' ∉ host.toList) (hdigits : parseU16 digits.toList = some port) :
    fromStr net (host ++ ":" ++ digits) = .ok (fromHostAndPort net host port) := by
  have hcolon := colon_not_mem_of_parseU16 hdigits
  have htext : (host ++ ":" ++ digits).toList = host.toList ++ ':' :: digits.toList := by simp
  have hone : (host ++ ":" ++ digits).toList.count ':' = 1 := by
    rw [htext, List.count_append, List.count_cons_self, List.count_eq_zero.mpr hhost,
      List.count_eq_zero.mpr hcolon]
  cases hp : net.parseSocketAddr (host ++ ":" ++ digits) with
  | none =>
    have hsplit : (host ++ ":" ++ digits).toList.splitOn ':' = [host.toList, digits.toList] := by
      rw [htext, List.splitOn_append_cons_self_of_not_mem hhost, List.splitOn_eq_singleton hcolon]
    rw [fromStr, tryParseSocketAddr, hp]
    simp only [tryParseHostname, hsplit, hdigits, String.ofList_toList]
  | some socket =>
    obtain ⟨ip, port'⟩ := socket
    cases ip with
    | v6 ip =>
      have htwo := net.parseSocketAddr_v6 _ ip port' hp
      omega
    | v4 ip =>
      obtain ⟨digits', heq, hdigits'⟩ := net.parseSocketAddr_v4 _ ip port' hp
      have hlists : host.toList ++ ':' :: digits.toList =
          ip.text.toList ++ ':' :: digits'.toList := by
        simpa using congrArg String.toList heq
      obtain ⟨hsame, hrest⟩ := Separated.cut_unique hhost ip.colon_not_mem hlists
      rw [← hrest, hdigits] at hdigits'
      obtain rfl := Option.some.inj hdigits'
      obtain rfl := String.toList_inj.mp hsame
      rw [fromStr, tryParseSocketAddr, hp]
      rfl

/-- The hosts that come out of a text: an IPv6 address, or one without a colon. -/
def PlainHost (net : NetLib) (host : String) : Prop :=
  ':' ∉ host.toList ∨ ∃ ip, host = net.ipv6Text ip

theorem plainHost_ipText (ip : IpAddr) : PlainHost net (ipText net.ipv6Text ip) := by
  cases ip with
  | v4 ip => exact Or.inl ip.colon_not_mem
  | v6 ip => exact Or.inr ⟨ip, rfl⟩

theorem fromStr_ok (h : fromStr net s = .ok addr) :
    ∃ host port, PlainHost net host ∧ addr = fromHostAndPort net host port := by
  unfold fromStr tryParseSocketAddr at h
  cases hp : net.parseSocketAddr s with
  | some socket =>
    rw [hp] at h
    obtain rfl : fromSocketAddr net socket = addr := by simpa using h
    exact ⟨_, _, plainHost_ipText socket.ip, rfl⟩
  | none =>
    rw [hp] at h
    simp only [tryParseHostname] at h
    split at h
    · next host digits hsplit =>
      split at h
      · next port hport =>
        have hhost : ':' ∉ host :=
          Separated.not_mem_of_mem_splitOn (hsplit ▸ List.mem_cons_self)
        refine ⟨String.ofList host, port, Or.inl ?_, (Except.ok.inj h).symm⟩
        rwa [String.toList_ofList]
      · cases h
    · cases h

theorem fromHostAndPort_cases (net : NetLib) (host : String) (port : UInt16) :
    fromHostAndPort net host port = ⟨none, port⟩ ∨
      fromHostAndPort net host port = ⟨some host, port⟩ := by
  rw [fromHostAndPort, Addr.fromHostAndPort]
  split
  · exact Or.inl rfl
  · exact Or.inr rfl

theorem display_name (h : ':' ∉ host.toList) :
    Addr.display ⟨some host, port⟩ = host ++ ":" ++ port.toNat.repr := by
  simp [Addr.display, h]

theorem display_ipText (ip : IpAddr) :
    Addr.display ⟨some (ipText net.ipv6Text ip), port⟩ = socketText net.ipv6Text ⟨ip, port⟩ := by
  cases ip with
  | v4 ip => exact display_name ip.colon_not_mem
  | v6 ip => simp [Addr.display, ipText, socketText, colon_mem_ipv6Text net ip]

def defaultIp : IpAddr := .v4 ⟨#v[127, 0, 0, 1]⟩

theorem defaultAddrHost_eq : defaultAddrHost = ipText net.ipv6Text defaultIp := by
  have htext : Ipv4Addr.text ⟨#v[127, 0, 0, 1]⟩ = defaultAddrHost := by decide
  exact htext.symm

theorem display_none :
    Addr.display ⟨none, port⟩ = socketText net.ipv6Text ⟨defaultIp, port⟩ := by
  rw [← display_ipText, ← defaultAddrHost_eq]
  rfl

theorem fromStr_socketText (socket : SocketAddr) :
    fromStr net (socketText net.ipv6Text socket) = .ok (fromSocketAddr net socket) := by
  rw [fromStr, tryParseSocketAddr, net.parseSocketAddr_text]

theorem fromStr_display (h : PlainHost net host) :
    fromStr net (fromHostAndPort net host port).display =
      .ok (fromHostAndPort net host port) := by
  rcases fromHostAndPort_cases net host port with hdropped | hkept
  · rw [hdropped, display_none, fromStr_socketText, fromSocketAddr]
    have hloopback : defaultIp.isLoopback = true := by decide
    exact congrArg Except.ok (fromHostAndPort_ip hloopback)
  · rw [hkept]
    rcases h with hname | ⟨ip, rfl⟩
    · have hdigits : parseU16 port.toNat.repr.toList = some port := LocalUrl.parseU16_repr port
      rw [display_name hname, fromStr_name hname hdigits, hkept]
    · have htext : Addr.display ⟨some (net.ipv6Text ip), port⟩ =
          socketText net.ipv6Text ⟨.v6 ip, port⟩ := display_ipText (.v6 ip)
      rw [htext, fromStr_socketText, fromSocketAddr, ipText, hkept]

theorem ipText_punctuated (net : NetLib) (ip : IpAddr) :
    '.' ∈ (ipText net.ipv6Text ip).toList ∨ ':' ∈ (ipText net.ipv6Text ip).toList := by
  cases ip with
  | v6 ip => exact Or.inr (colon_mem_ipv6Text net ip)
  | v4 ip =>
    refine Or.inl ?_
    by_contra hdot
    have hfields : [ip.text.toList] = ip.fields := by
      rw [← ip.splitOn_text]
      exact (List.splitOn_eq_singleton hdot).symm
    have hlen := congrArg List.length hfields
    simp [Ipv4Addr.fields] at hlen

theorem ipText_ne (net : NetLib) (ip : IpAddr) {s : String}
    (h : '.' ∉ s.toList ∧ ':' ∉ s.toList) : ipText net.ipv6Text ip ≠ s := by
  rcases ipText_punctuated net ip with hdot | hcolon
  · exact text_ne hdot h.1
  · exact text_ne hcolon h.2

theorem fromSocketAddr_eq (socket : SocketAddr) :
    fromSocketAddr net socket = ⟨if socket.ip.isLoopback then none
      else some (ipText net.ipv6Text socket.ip), socket.port⟩ := by
  have hempty : ipText net.ipv6Text socket.ip ≠ "" := ipText_ne net socket.ip (by decide)
  have hlocal : ipText net.ipv6Text socket.ip ≠ localhost := ipText_ne net socket.ip (by decide)
  simp [fromSocketAddr, fromHostAndPort, Addr.fromHostAndPort, isLoopback_ipText, hempty, hlocal]

end Parsed

end AddrText
