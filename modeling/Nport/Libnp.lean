import Mathlib.Data.Nat.Notation

/-! What libnp gives both programs: addresses, as they are on the wire and in memory, and the
origin that names a port forwarding. Whether a host is a loopback IP address is a parameter. -/
namespace Libnp

/-- messages::common::Address, as it is on the wire -/
structure Address where
  host : Option String
  port : UInt32
  deriving DecidableEq, Repr

structure Addr where
  host : Option String
  port : UInt16
  deriving DecidableEq, Repr

def Addr.fromAddress : Option Address → Addr
  | some address => ⟨address.host, address.port.toUInt16⟩
  | none => ⟨none, 0⟩

def localhost : String := "localhost"

def Addr.fromHostAndPort (isLoopback : String → Bool) (host : String) (port : UInt16) : Addr :=
  ⟨if host = "" ∨ host = localhost ∨ isLoopback host then none else some host, port⟩

def Addr.toAddress (addr : Addr) : Address := ⟨addr.host, addr.port.toUInt32⟩

theorem Addr.fromAddress_port (a : Address) :
    (Addr.fromAddress (some a)).port.toNat = a.port.toNat % 65536 := by
  simp [Addr.fromAddress]

theorem Addr.fromAddress_toAddress (addr : Addr) :
    Addr.fromAddress (some addr.toAddress) = addr := by
  simp [Addr.fromAddress, Addr.toAddress]

def toAsciiLowercase (s : String) : String := String.ofList (s.toList.map Char.toLower)

/-! Origins of port forwardings. -/

def defaultAddrHost : String := "127.0.0.1"

/-- fmt::Display for Addr: a host with a colon in it is an IPv6 address. -/
def Addr.display (addr : Addr) : String :=
  let host := addr.host.getD defaultAddrHost
  let host := if host.toList.contains ':' then "[" ++ host ++ "]" else host
  host ++ ":" ++ addr.port.toNat.repr

inductive PortProtocol where
  | tcp
  deriving DecidableEq, Repr

def PortProtocol.tryFrom (protocol : Int32) : Option PortProtocol :=
  if protocol = 0 then some .tcp else none

def portOrigin (protocol : PortProtocol) (addr : Addr) : String :=
  match protocol with
  | .tcp => "tcp" ++ "://" ++ addr.display

/-- none is the panic of the unwrap, for a protocol that has no name. -/
def portOriginFromRaw (protocol : Int32) (addr : Option Address) : Option String :=
  (PortProtocol.tryFrom protocol).map fun protocol => portOrigin protocol (Addr.fromAddress addr)

theorem repr_injective {m n : ℕ} (h : m.repr = n.repr) : m = n := by
  have hdigits : Nat.toDigits 10 m = Nat.toDigits 10 n := by
    rw [← Nat.toList_repr, h, Nat.toList_repr]
  have hvalue := congrArg (fun l => Nat.ofDigitChars 10 l 0) hdigits
  simpa using hvalue

theorem portOrigin_injective {protocol : PortProtocol} {host : Option String} {p q : UInt16}
    (h : portOrigin protocol ⟨host, p⟩ = portOrigin protocol ⟨host, q⟩) : p = q := by
  cases protocol
  simp only [portOrigin, Addr.display, String.append_right_inj] at h
  exact UInt16.toNat_inj.mp (repr_injective h)

end Libnp
