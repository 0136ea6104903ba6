import Nport.AddrCodecs

/-! The ways to make an Addr, and which of them leave it in normal form: without a host where
the default host is meant. All but from_address go through from_host_and_port. -/
namespace AddrForms

open Libnp
open AddrText
open AddrCodecs
open PlainNet (plainNet)

/-- The public constructors and codecs, one after another where they take an Addr. -/
inductive Construction where
  | fromPort (port : UInt16)
  | fromHostAndPort (host : String) (port : UInt16)
  | fromSocketAddr (socket : SocketAddr)
  | fromAddress (address : Option Address)
  | withPort (base : Construction) (port : UInt16)
  | fromStr (s : String)
  | deserialize (delivered : Delivered)

section Forms

variable (net : NetLib)

def Construction.build : Construction → Option Addr
  | .fromPort port => some (AddrText.fromPort port)
  | .fromHostAndPort host port => some (AddrText.fromHostAndPort net host port)
  | .fromSocketAddr socket => some (AddrText.fromSocketAddr net socket)
  | .fromAddress address => some (Addr.fromAddress address)
  | .withPort base port => base.build.map fun addr => AddrText.withPort addr port
  | .fromStr s => (AddrText.fromStr net s).toOption
  | .deserialize delivered => (AddrText.deserialize net delivered).toOption

def NamesDefault (host : String) : Prop :=
  host = "" ∨ host = localhost ∨ isLoopback net host = true

def Normal (addr : Addr) : Prop := ∀ host, addr.host = some host → ¬ NamesDefault net host

/-- No wire address in it names the default host in so many words. -/
def Construction.WireNormal : Construction → Prop
  | .fromAddress address =>
    ∀ a host, address = some a → a.host = some host → ¬ NamesDefault net host
  | .withPort base _ => base.WireNormal
  | _ => True

def NamesLoopback (address : Address) : Prop :=
  ∀ host, address.host = some host → NamesDefault net host

end Forms

variable {net : NetLib} {addr : Addr}

theorem normal_none (port : UInt16) : Normal net ⟨none, port⟩ := by
  intro host h
  cases h

theorem fromHostAndPort_normal (host : String) (port : UInt16) :
    Normal net (AddrText.fromHostAndPort net host port) := by
  rw [AddrText.fromHostAndPort, Addr.fromHostAndPort]
  split
  · exact normal_none port
  · next hkept =>
    intro h heq
    obtain rfl := Option.some.inj heq
    exact hkept

theorem fromStr_normal {s : String} (h : AddrText.fromStr net s = .ok addr) : Normal net addr := by
  obtain ⟨host, port, _, rfl⟩ := fromStr_ok h
  exact fromHostAndPort_normal host port

theorem visitI64_normal {v : Int64} (h : visitI64 v = .ok addr) : Normal net addr := by
  intro host hhost
  rw [(visitI64_ok_iff.mp h).2.1] at hhost
  cases hhost

theorem deserialize_normal {delivered : Delivered}
    (h : AddrText.deserialize net delivered = .ok addr) : Normal net addr := by
  cases delivered with
  | i64 v => exact visitI64_normal h
  | u64 v => exact visitI64_normal (v := v.toInt64) h
  | f64 v => exact visitI64_normal h
  | other unexpected => cases h
  | str v =>
    rw [AddrText.deserialize, visitStr] at h
    split at h
    · next addr' hparsed =>
      obtain rfl := Except.ok.inj h
      exact fromStr_normal hparsed
    · cases h

theorem withPort_normal_iff (port : UInt16) : Normal net (withPort addr port) ↔ Normal net addr :=
  Iff.rfl

theorem toOption_eq_some {α : Type*} {x : Except String α} {a : α} (h : x.toOption = some a) :
    x = .ok a := by
  cases x with
  | error e => cases h
  | ok b => exact congrArg Except.ok (Option.some.inj h)

theorem fromAddress_normal_iff (address : Option Address) :
    Normal net (Addr.fromAddress address) ↔ (Construction.fromAddress address).WireNormal net := by
  cases address with
  | none => simp [Normal, Addr.fromAddress, Construction.WireNormal]
  | some a =>
    constructor
    · intro h a' host ha hhost
      obtain rfl := Option.some.inj ha
      exact h host hhost
    · intro h host hhost
      exact h a host rfl hhost

theorem normal_iff {c : Construction} (h : c.build net = some addr) :
    Normal net addr ↔ c.WireNormal net := by
  induction c generalizing addr with
  | fromPort port =>
    obtain rfl := Option.some.inj h
    exact iff_of_true (normal_none port) trivial
  | fromHostAndPort host port =>
    obtain rfl := Option.some.inj h
    exact iff_of_true (fromHostAndPort_normal host port) trivial
  | fromSocketAddr socket =>
    obtain rfl := Option.some.inj h
    exact iff_of_true (fromHostAndPort_normal _ socket.port) trivial
  | fromAddress address =>
    obtain rfl := Option.some.inj h
    exact fromAddress_normal_iff address
  | withPort base port ih =>
    obtain ⟨before, hbuild, rfl⟩ := Option.map_eq_some_iff.mp h
    rw [withPort_normal_iff]
    exact ih hbuild
  | fromStr s => exact iff_of_true (fromStr_normal (toOption_eq_some h)) trivial
  | deserialize delivered =>
    exact iff_of_true (deserialize_normal (toOption_eq_some h)) trivial

theorem fromAddress_eq_iff {a b : Address} (hport : a.port.toUInt16 = b.port.toUInt16) :
    Addr.fromAddress (some a) = Addr.fromAddress (some b) ↔ a.host = b.host := by
  simp [Addr.fromAddress, hport]

/-- An Addr is in normal form exactly when it is not made of a wire address that names the
default host. Two such addresses of one loopback endpoint have the same Addr, and the same key
for every protocol, exactly when they name it in the same way. -/
theorem one_representation_iff (net : NetLib) :
    (∀ (c : Construction) addr, c.build net = some addr →
      (Normal net addr ↔ c.WireNormal net)) ∧
    (∀ a b : Address, NamesLoopback net a → NamesLoopback net b →
      a.port.toUInt16 = b.port.toUInt16 →
      ((Addr.fromAddress (some a) = Addr.fromAddress (some b) ∧
        ∀ protocol, portOriginFromRaw protocol (some a) = portOriginFromRaw protocol (some b)) ↔
      a.host = b.host)) := by
  refine ⟨fun c addr h => normal_iff h, fun a b _ _ hport => ?_⟩
  rw [← fromAddress_eq_iff hport]
  constructor
  · intro h
    exact h.1
  · intro h
    refine ⟨h, fun protocol => ?_⟩
    rw [portOriginFromRaw, portOriginFromRaw, h]

def onLocalhost : Address := ⟨some "localhost", 80⟩

def onDefault : Address := ⟨none, 80⟩

theorem one_representation_of_default :
    Normal plainNet (Addr.fromAddress (some onDefault)) ∧
      ¬ Normal plainNet (Addr.fromAddress (some onLocalhost)) := by
  have hforms := (one_representation_iff plainNet).1
  constructor
  · apply (hforms (.fromAddress (some onDefault)) _ rfl).mpr
    intro a host ha hhost
    obtain rfl := Option.some.inj ha
    cases hhost
  · intro h
    have hwire := (hforms (.fromAddress (some onLocalhost)) _ rfl).mp h
    exact hwire onLocalhost "localhost" rfl rfl (Or.inr (Or.inl rfl))

/-- Two names of one endpoint are two keys in the tables of np. -/
theorem localhost_has_own_key :
    NamesLoopback plainNet onLocalhost ∧ NamesLoopback plainNet onDefault ∧
      ¬ Normal plainNet (Addr.fromAddress (some onLocalhost)) ∧
      Addr.fromAddress (some onLocalhost) ≠ Addr.fromAddress (some onDefault) ∧
      portOriginFromRaw 0 (some onLocalhost) = some "tcp://localhost:80" ∧
      portOriginFromRaw 0 (some onDefault) = some "tcp://127.0.0.1:80" := by
  refine ⟨?_, ?_, ?_, by decide, by decide, by decide⟩
  · intro host h
    obtain rfl : "localhost" = host := Option.some.inj h
    exact Or.inr (Or.inl rfl)
  · intro host h
    cases h
  · intro h
    exact h "localhost" rfl (Or.inr (Or.inl rfl))

end AddrForms
