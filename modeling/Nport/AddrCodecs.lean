import Nport.PlainNet

/-! The round trips of an Addr, through its text and through serde, and what the text of an IP
address comes to: every loopback address is the default host. -/
namespace AddrCodecs

open Libnp
open LocalUrl (parseU16)
open AddrText
open PlainNet (plainNet)

/-! The integers of the visitor. -/

theorem toInt_eq (v : Int64) : v.toInt =
    if 2 * v.toUInt64.toNat < 18446744073709551616 then (v.toUInt64.toNat : ℤ)
    else v.toUInt64.toNat - 18446744073709551616 :=
  BitVec.toInt_eq_toNat_cond v.toBitVec

theorem visitI64_ok_iff {v : Int64} {addr : Addr} :
    visitI64 v = .ok addr ↔
      (0 ≤ v.toInt ∧ v.toInt ≤ 65535) ∧ addr.host = none ∧ (addr.port.toNat : ℤ) = v.toInt := by
  obtain ⟨host, port⟩ := addr
  have hrange : (0 ≤ v ∧ v ≤ 65535) ↔ 0 ≤ v.toInt ∧ v.toInt ≤ 65535 := by
    rw [Int64.le_iff_toInt_le, Int64.le_iff_toInt_le]
    rfl
  unfold visitI64
  by_cases h : 0 ≤ v ∧ v ≤ 65535
  · have hr := hrange.mp h
    have hport : ((v.toUInt64.toUInt16).toNat : ℤ) = v.toInt := by
      have hcond := toInt_eq v
      have hlt := v.toUInt64.toNat_lt
      rw [UInt64.toNat_toUInt16]
      split at hcond <;> omega
    rw [if_pos h]
    constructor
    · intro heq
      obtain ⟨rfl, rfl⟩ := Addr.mk.inj (Except.ok.inj heq)
      exact ⟨hr, rfl, hport⟩
    · intro ⟨_, hhost, hp⟩
      have hp : (port.toNat : ℤ) = v.toInt := hp
      obtain rfl : v.toUInt64.toUInt16 = port := UInt16.toNat_inj.mp (by omega)
      obtain rfl : host = none := hhost
      rfl
  · rw [if_neg h]
    simp [mt hrange.mpr h]

/-- A number of 2^63 and above wraps to a negative one, which is refused. -/
theorem visitU64_ok_iff {v : UInt64} {addr : Addr} :
    visitU64 v = .ok addr ↔
      v.toNat ≤ 65535 ∧ addr.host = none ∧ addr.port.toNat = v.toNat := by
  have hcond := toInt_eq v.toInt64
  have hsame : v.toInt64.toUInt64 = v := rfl
  have hlt := v.toNat_lt
  rw [hsame] at hcond
  rw [visitU64, visitI64_ok_iff]
  constructor
  · intro ⟨hrange, hhost, hport⟩
    split at hcond
    · exact ⟨by omega, hhost, by omega⟩
    · omega
  · intro ⟨hrange, hhost, hport⟩
    rw [if_pos (by omega)] at hcond
    exact ⟨by omega, hhost, by omega⟩

section Codec

variable {net : NetLib} {addr : Addr}

theorem deserialize_serialize {delivered : Delivered} (h : Delivers (serialize addr) delivered)
    (htext : fromStr net addr.display = .ok addr) : deserialize net delivered = .ok addr := by
  obtain ⟨host, port⟩ := addr
  cases host with
  | some host =>
    obtain ⟨⟩ := h
    rw [deserialize, visitStr, htext]
  | none =>
    have hlt := port.toNat_lt
    rw [serialize] at h
    cases h with
    | i64 hv =>
      have hv : _ = (port.toNat : ℤ) := hv
      rw [deserialize, visitI64_ok_iff]
      exact ⟨by omega, rfl, hv.symm⟩
    | u64 hv =>
      have hv : _ = port.toNat := hv
      rw [deserialize, visitU64_ok_iff]
      exact ⟨by omega, rfl, hv.symm⟩

end Codec

/-- The text of an address that was parsed is parsed again, its serialised form is read back,
and an integer is an address exactly when it is a port number. -/
theorem codecs_round_trip (net : NetLib) :
    (∀ s addr, fromStr net s = .ok addr → fromStr net addr.display = .ok addr ∧
      ∀ delivered, Delivers (serialize addr) delivered →
        deserialize net delivered = .ok addr) ∧
    (∀ (v : Int64) addr, deserialize net (.i64 v) = .ok addr ↔
      (0 ≤ v.toInt ∧ v.toInt ≤ 65535) ∧ addr.host = none ∧ (addr.port.toNat : ℤ) = v.toInt) ∧
    (∀ (v : UInt64) addr, deserialize net (.u64 v) = .ok addr ↔
      v.toNat ≤ 65535 ∧ addr.host = none ∧ addr.port.toNat = v.toNat) := by
  refine ⟨fun s addr h => ?_, fun v addr => visitI64_ok_iff, fun v addr => visitU64_ok_iff⟩
  obtain ⟨host, port, hplain, rfl⟩ := fromStr_ok h
  have htext : fromStr net (fromHostAndPort net host port).display =
      .ok (fromHostAndPort net host port) := fromStr_display hplain
  exact ⟨htext, fun delivered hd => deserialize_serialize hd htext⟩

/-- A sign in front of the port does not survive, and all else does. -/
theorem codecs_round_trip_signed :
    fromStr plainNet "10.0.0.1:+80" = .ok ⟨some "10.0.0.1", 80⟩ ∧
      fromStr plainNet "10.0.0.1:80" = .ok ⟨some "10.0.0.1", 80⟩ ∧
      deserialize plainNet (.str "10.0.0.1:80") = .ok ⟨some "10.0.0.1", 80⟩ := by
  have hparsed : fromStr plainNet "10.0.0.1:+80" = .ok ⟨some "10.0.0.1", 80⟩ := by decide
  obtain ⟨htext, hcodec⟩ := (codecs_round_trip plainNet).1 _ _ hparsed
  exact ⟨hparsed, htext, hcodec _ .str⟩

/-! Where an address points. -/

/-- The text of a socket address, or an IPv4 address and a port as u16::from_str reads it. -/
def Denotes (net : NetLib) (s : String) (ip : IpAddr) (port : UInt16) : Prop :=
  net.parseSocketAddr s = some ⟨ip, port⟩ ∨
    ∃ host digits, s = host ++ ":" ++ digits ∧ ':' ∉ host.toList ∧ net.parseIp host = some ip ∧
      parseU16 digits.toList = some port

/-- The default host in the place of a loopback address. -/
def pointsTo (ip : IpAddr) : IpAddr := if ip.isLoopback then defaultIp else ip

section Endpoint

variable {net : NetLib} {s : String} {ip : IpAddr} {port : UInt16} {addr : Addr}

theorem fromStr_denotes (h : Denotes net s ip port) :
    fromStr net s = .ok (fromSocketAddr net ⟨ip, port⟩) := by
  rcases h with hsocket | ⟨host, digits, rfl, hcolon, hip, hdigits⟩
  · rw [fromStr, tryParseSocketAddr, hsocket]
  · rw [fromStr_name hcolon hdigits, fromSocketAddr]
    cases ip with
    | v4 a => rw [net.parseIp_v4 host a hip, ipText]
    | v6 a =>
      have htwo := (net.parseIp_v6 host a hip).1
      exact absurd (List.count_pos_iff.mp (by omega)) hcolon

theorem display_fromSocketAddr :
    (fromSocketAddr net ⟨ip, port⟩).display = socketText net.ipv6Text ⟨pointsTo ip, port⟩ := by
  rw [fromSocketAddr_eq, pointsTo]
  by_cases hloopback : ip.isLoopback = true
  · simp only [hloopback, if_true]
    exact display_none
  · simp only [hloopback]
    exact display_ipText ip

theorem tryToSocketAddr_fromSocketAddr :
    tryToSocketAddr net (fromSocketAddr net ⟨ip, port⟩) = .ok ⟨pointsTo ip, port⟩ := by
  rw [tryToSocketAddr, display_fromSocketAddr, net.parseSocketAddr_text]

end Endpoint

/-- An address that is not a loopback one is printed and dialed as it was given, whatever its
form; a loopback one is the default host with the same port. -/
theorem same_endpoint (net : NetLib) {s : String} {ip : IpAddr} {port : UInt16} {addr : Addr}
    (h : fromStr net s = .ok addr) (hd : Denotes net s ip port) :
    (ip.isLoopback = false → addr.display = socketText net.ipv6Text ⟨ip, port⟩ ∧
      tryToSocketAddr net addr = .ok ⟨ip, port⟩) ∧
    (ip.isLoopback = true → addr.display = "127.0.0.1:" ++ port.toNat.repr ∧
      tryToSocketAddr net addr = .ok ⟨defaultIp, port⟩) := by
  obtain rfl : fromSocketAddr net ⟨ip, port⟩ = addr := by
    rw [fromStr_denotes hd] at h
    exact Except.ok.inj h
  rw [display_fromSocketAddr, tryToSocketAddr_fromSocketAddr]
  constructor
  · intro hloopback
    have hsame : pointsTo ip = ip := if_neg (by simp [hloopback])
    rw [hsame]
    exact ⟨rfl, rfl⟩
  · intro hloopback
    have hdefault : pointsTo ip = defaultIp := if_pos hloopback
    have htext : Ipv4Addr.text ⟨#v[127, 0, 0, 1]⟩ ++ ":" = "127.0.0.1:" := by decide
    rw [hdefault]
    refine ⟨?_, rfl⟩
    calc socketText net.ipv6Text ⟨defaultIp, port⟩
        = Ipv4Addr.text ⟨#v[127, 0, 0, 1]⟩ ++ ":" ++ port.toNat.repr := rfl
      _ = "127.0.0.1:" ++ port.toNat.repr := by rw [htext]

theorem same_endpoint_private :
    fromStr plainNet "10.0.0.1:080" = .ok ⟨some "10.0.0.1", 80⟩ ∧
      tryToSocketAddr plainNet ⟨some "10.0.0.1", 80⟩ = .ok ⟨.v4 ⟨#v[10, 0, 0, 1]⟩, 80⟩ := by
  have hparsed : fromStr plainNet "10.0.0.1:080" = .ok ⟨some "10.0.0.1", 80⟩ := by decide
  have hdenotes : Denotes plainNet "10.0.0.1:080" (.v4 ⟨#v[10, 0, 0, 1]⟩) 80 :=
    Or.inl (by decide)
  exact ⟨hparsed, ((same_endpoint plainNet hparsed hdenotes).1 (by decide)).2⟩

/-- 127.0.0.2 is neither of the documented aliases, and is dialed as 127.0.0.1. -/
theorem other_loopback_moved :
    fromStr plainNet "127.0.0.2:80" = .ok ⟨none, 80⟩ ∧
      Denotes plainNet "127.0.0.2:80" (.v4 ⟨#v[127, 0, 0, 2]⟩) 80 ∧
      Addr.display ⟨none, 80⟩ = "127.0.0.1:80" ∧
      tryToSocketAddr plainNet ⟨none, 80⟩ = .ok ⟨.v4 ⟨#v[127, 0, 0, 1]⟩, 80⟩ :=
  ⟨by decide, Or.inl (by decide), by decide, by decide⟩

end AddrCodecs
