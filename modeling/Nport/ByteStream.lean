import Nport.Tunnel
import Mathlib.Data.Fintype.Basic

/-! The two byte streams of a forwarded connection. Each is followed from the socket read
by one port task, through its messages, to the socket written by the other. -/
namespace ByteStream

open GuardedMachine
open PortTask
open PortHistory
open EndpointFlow
open FifoPipe
open Link
open Tunnel

section Direction

variable {U κ : Type*} [DecidableEq U] {src dst : Endpoint.State U}
  {wire : List (Frame U κ)} {intact : Bool} {u : U} {here there : Bool}

theorem taken_in_order (h : Carries src dst wire intact u) :
    (dst.port u).taken <+: (src.port u).emitted :=
  (List.prefix_append _ _).trans h.arrived_prefix

theorem written_in_order (h : Carries src dst wire intact u) (hs : Sound here (src.port u))
    (hd : Sound there (dst.port u)) : (dst.port u).written <+: (src.port u).read := by
  have htaken := bytesOf_prefix (taken_in_order h)
  exact hd.writes.copied.trans (htaken.trans hs.reads.copied)

/-- Close is the last message of a task, so who has taken it has taken everything. -/
theorem written_all (h : Carries src dst wire intact u) (hs : Sound here (src.port u))
    (hd : Sound there (dst.port u)) (hc : (dst.port u).phase.out = some .close) :
    (dst.port u).written = (src.port u).read ∧ .close ∈ (src.port u).emitted ∧
      (src.port u).phase.looping = false := by
  obtain ⟨hw, hmem⟩ := hd.writes.onClose hc
  have hsent := (taken_in_order h).subset hmem
  obtain ⟨hleft, hread, pre, hlast, honly⟩ := hs.reads.closing hsent
  have hall : (dst.port u).taken = (src.port u).emitted := by
    have htaken := taken_in_order h
    rw [hlast] at htaken ⊢
    exact prefix_eq_of_last_mem htaken hmem honly
  refine ⟨?_, hsent, hleft⟩
  rw [hw, hall, hread]

end Direction

variable {U : Type*} [DecidableEq U]

/-- What one end has written against what the other end has read: always a prefix, and all
of it when the writer ended on Close, which the reader sent at its end of file. -/
theorem byte_stream_integrity {s : State U} (h : Reachable tunnel s) (u : U) :
    (s.server.port u).written <+: (s.np.port u).read ∧
    (s.np.port u).written <+: (s.server.port u).read ∧
    ((s.server.port u).phase.out = some .close →
      (s.server.port u).written = (s.np.port u).read ∧ .close ∈ (s.np.port u).emitted ∧
        (s.np.port u).phase.looping = false) ∧
    ((s.np.port u).phase.out = some .close →
      (s.np.port u).written = (s.server.port u).read ∧ .close ∈ (s.server.port u).emitted ∧
        (s.server.port u).phase.looping = false) := by
  have hi := reachable_invariant h
  have hserver := hi.serverPorts u
  have hnp := hi.npPorts u
  exact ⟨written_in_order (hi.upward u) hnp hserver, written_in_order (hi.downward u) hserver hnp,
    written_all (hi.upward u) hnp hserver, written_all (hi.downward u) hserver hnp⟩

def serviceCloses : List (Event Unit) :=
  establish () ++ npToServer () [104, 105] ++ [.server .lookup, .server .enqueue] ++
    npToServer () [] ++ [.server .lookup, .server .enqueue, .server (.pop ()),
      .server (.write () 2), .server (.wrote ()), .server (.pop ())]

theorem byte_stream_integrity_service_closes :
    (((replay tunnel initial serviceCloses).server.port ()).written =
      ((replay tunnel initial serviceCloses).np.port ()).read) := by
  have accepted : Accepts tunnel initial serviceCloses := by decide
  have h := byte_stream_integrity (reachable_of_accepts accepted) ()
  exact (h.2.2.1 (by decide)).1

end ByteStream
