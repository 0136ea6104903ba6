import Nport.ByteStream
import Nport.PortExit

/-! What one end of a forwarded connection learns of the end of the other. An end that
leaves its loop at end of file has sent PortClose; one that leaves it after a write error
or, at the server, a read error has not, and the other end goes on. -/
namespace HalfOpen

open GuardedMachine
open PortTask
open PortHistory
open EndpointFlow
open PortExit
open FifoPipe
open Link
open Tunnel

variable {U : Type*} [DecidableEq U]

def Up (s : State U) : Prop :=
  s.server.running = true ∧ s.np.running = true ∧ s.upIntact = true ∧ s.downIntact = true

def Established (s : State U) (u : U) : Prop :=
  (s.server.port u).phase ≠ .absent ∧ (s.np.port u).phase ≠ .absent

/-- The end dst knows that the other end is through, or a PortClose will tell it. -/
def Told {κ : Type*} (dst : Endpoint.State U) (wire : List (Frame U κ)) (u : U) : Prop :=
  Done (dst.port u) ∨ .port u .close ∈ wire ∨ .close ∈ hand dst u ∨
    .close ∈ (dst.port u).queue

def NoHalfOpen (s : State U) : Prop :=
  ∀ u, Established s u →
    ((s.server.port u).phase.out ≠ none → Told s.np s.down u) ∧
    ((s.np.port u).phase.out ≠ none → Told s.server s.up u)

/-- A task breaks off without a PortClose while the other end is not done: a write error at
either end, or a read error at the server. A read error at np only is logged. -/
def BreaksOff (s : State U) : Event U → Prop
  | .server (.writeFail u) => ¬ Done (s.np.port u)
  | .server (.read u .error) => ¬ Done (s.np.port u)
  | .np (.writeFail u) => ¬ Done (s.server.port u)
  | _ => False

/-- While the session is up, who broke off did so when the other end was done. -/
structure Orderly (s : State U) : Prop where
  base : Tunnel.Invariant s
  serverBroke : Up s → ∀ u, Broke (s.server.port u) → Done (s.np.port u)
  npBroke : Up s → ∀ u, Broke (s.np.port u) → Done (s.server.port u)
  serverLink : ∀ u, (s.server.port u).phase.out = some .sendError → s.downIntact = false
  npLink : ∀ u, (s.np.port u).phase.out = some .sendError → s.upIntact = false

theorem initial_orderly : Orderly (initial : State U) := by
  refine ⟨Tunnel.initial_invariant, ?_, ?_, ?_, ?_⟩ <;>
    simp [initial, Endpoint.initial, Endpoint.Port.fresh, Broke, Phase.out]

section Direction

variable {κ : Type*} {src dst : Endpoint.State U} {wire : List (Frame U κ)} {intact : Bool}
  {u : U} {here there : Bool}

theorem told_of_closed (h : Carries src dst wire intact u) (hd : Sound there (dst.port u))
    (sent : .close ∈ (src.port u).emitted) (link : intact = true)
    (running : dst.running = true) : Told dst wire u := by
  by_cases hshut : Shut dst u
  · rcases hshut with ⟨_, ho⟩ | ⟨hr, _⟩
    · exact Or.inl (Or.inl ho)
    · rw [running] at hr
      cases hr
  rcases h.mem_or hshut link sent with hm | hm
  · rcases List.mem_append.mp hm with hm | hm
    · left; left
      rw [hd.writes.closing hm]
      simp
    · exact Or.inr (Or.inr (Or.inr hm))
  · rcases List.mem_append.mp hm with hm | hm
    · exact Or.inr (Or.inr (Or.inl hm))
    · exact Or.inr (Or.inl (mem_onWire.mp hm))

theorem told_done (h : Carries src dst wire intact u) (hs : Sound here (src.port u))
    (loop : (src.port u).phase.looping = true) (running : dst.running = true)
    (ht : Told dst wire u) : Done (dst.port u) := by
  by_contra hn
  have hopen : ¬ Shut dst u := by
    rintro (⟨_, ho⟩ | ⟨hr, _⟩)
    · exact hn (Or.inl ho)
    · rw [running] at hr
      cases hr
  have hflow := h.ordered hopen
  have hnone := (hs.reads.inLoop loop).2
  rcases ht with hd | hw | hh | hq
  · exact hn hd
  · apply hnone
    apply hflow.subset
    simp [mem_onWire.mpr hw]
  · apply hnone
    apply hflow.subset
    simp [hh]
  · apply hnone
    apply hflow.subset
    simp [arrived, hq]

/-- Every exit but the two that break off leaves the other end told. -/
theorem told_of_exit (forth : Carries src dst wire intact u)
    {back : Bool} {κ' : Type*} {wire' : List (Frame U κ')} (h : Carries dst src wire' back u)
    (hi : Endpoint.Invariant src) (hs : Sound src.alive (src.port u))
    (hd : Sound there (dst.port u)) (link : intact = true) (here : src.running = true)
    (running : dst.running = true) (broke : Broke (src.port u) → Done (dst.port u))
    (lost : (src.port u).phase.out = some .sendError → intact = false)
    (out : (src.port u).phase.out ≠ none) : Told dst wire u := by
  obtain ⟨why, hw⟩ := Option.ne_none_iff_exists'.mp out
  cases why with
  | close => exact Or.inl (Or.inr (ByteStream.written_all h hd hs hw).2.1)
  | writeError => exact Or.inl (broke (Or.inl hw))
  | readError => exact Or.inl (broke (Or.inr hw))
  | eof => exact told_of_closed forth hd (hs.reads.onEof hw) link running
  | released =>
    have ha := hi.owned (hi.lives here)
    rw [hs.onRelease hw] at ha
    cases ha
  | sendError =>
    rw [lost hw] at link
    cases link

end Direction

theorem Orderly.no_half_open {s : State U} (h : Orderly s) (up : Up s) : NoHalfOpen s := by
  intro u _
  have hi := h.base
  have hserverBroke := h.serverBroke up u
  have hnpBroke := h.npBroke up u
  obtain ⟨hserver, hnp, hup, hdown⟩ := up
  constructor
  · exact told_of_exit (hi.downward u) (hi.upward u) hi.server (hi.serverPorts u) (hi.npPorts u)
      hdown hserver hnp hserverBroke (h.serverLink u)
  · exact told_of_exit (hi.upward u) (hi.downward u) hi.np (hi.npPorts u) (hi.serverPorts u)
      hup hnp hserver hnpBroke (h.npLink u)

variable {s t : State U} {e : Event U}

theorem intact_before (h : Step s e t) : (t.upIntact = true → s.upIntact = true) ∧
    (t.downIntact = true → s.downIntact = true) := by
  cases h with
  | connect | serverSend | answer | npSend => constructor <;> intro hb <;> simp_all
  | accept | wake | spawn | connected | noRequest | portMessage | server | portConnect
  | npMessage | dialed | undialed | np => exact ⟨id, id⟩

theorem up_before (h : Step s e t) (up : Up t) : Up s := by
  obtain ⟨hserver, hnp, hup, hdown⟩ := up
  refine ⟨?_, ?_, (intact_before h).1 hup, (intact_before h).2 hdown⟩
  · rcases h.atServer with hs | ⟨a, ha, hs, _⟩
    · rwa [hs] at hserver
    · rw [hs] at hserver
      exact next_running Endpoint.server ha hserver
  · rcases h.atNp with hn | ⟨a, ha, hn, _⟩
    · rwa [hn] at hnp
    · rw [hn] at hnp
      exact next_running Endpoint.np ha hnp

theorem server_broke_step (h : Step s e t) (hsafe : ¬ BreaksOff s e) {u : U}
    (hb : Broke (t.server.port u)) : Broke (s.server.port u) ∨ Done (s.np.port u) := by
  rcases h.atServer with hs | ⟨a, ha, hs, hl, _⟩
  · left; rwa [hs] at hb
  · rw [hs] at hb
    rcases broke_step Endpoint.server ha hb with hb | rfl | ⟨rfl, _⟩
    · exact Or.inl hb
    · obtain rfl : e = .server (.writeFail u) := by simpa using hl trivial
      exact Or.inr (not_not.mp hsafe)
    · obtain rfl : e = .server (.read u .error) := by simpa using hl trivial
      exact Or.inr (not_not.mp hsafe)

theorem np_broke_step (h : Step s e t) (hsafe : ¬ BreaksOff s e) {u : U}
    (hb : Broke (t.np.port u)) : Broke (s.np.port u) ∨ Done (s.server.port u) := by
  rcases h.atNp with hn | ⟨a, ha, hn, hl, _⟩
  · left; rwa [hn] at hb
  · rw [hn] at hb
    rcases broke_step Endpoint.np ha hb with hb | rfl | ⟨rfl, ho⟩
    · exact Or.inl hb
    · obtain rfl : e = .np (.writeFail u) := hl trivial
      exact Or.inr (not_not.mp hsafe)
    · -- client_port goes on after a read error
      simp [Endpoint.np, clientPort] at ho

theorem server_done_step (h : Step s e t) {u : U}
    (hd : Done (s.server.port u)) : Done (t.server.port u) := by
  rcases h.atServer with hs | ⟨a, ha, hs, _⟩
  · rwa [hs]
  · rw [hs]; exact done_step Endpoint.server ha hd

theorem np_done_step (h : Step s e t) {u : U}
    (hd : Done (s.np.port u)) : Done (t.np.port u) := by
  rcases h.atNp with hn | ⟨a, ha, hn, _⟩
  · rwa [hn]
  · rw [hn]; exact done_step Endpoint.np ha hd

theorem step_orderly (h : Orderly s) (hstep : Step s e t) (hsafe : Up s → ¬ BreaksOff s e) :
    Orderly t := by
  refine ⟨Tunnel.step_invariant h.base hstep, ?_, ?_, ?_, ?_⟩
  · intro up u hb
    have upBefore := up_before hstep up
    apply np_done_step hstep
    rcases server_broke_step hstep (hsafe upBefore) hb with hb | hd
    · exact h.serverBroke upBefore u hb
    · exact hd
  · intro up u hb
    have upBefore := up_before hstep up
    apply server_done_step hstep
    rcases np_broke_step hstep (hsafe upBefore) hb with hb | hd
    · exact h.npBroke upBefore u hb
    · exact hd
  · intro u ho
    have monotone : s.downIntact = false → t.downIntact = false := by
      intro hb
      by_contra hn
      rw [(intact_before hstep).2 (by simpa using hn)] at hb
      cases hb
    rcases hstep.atServer with hs | ⟨a, ha, hs, _, hl⟩
    · rw [hs] at ho
      exact monotone (h.serverLink u ho)
    · rw [hs] at ho
      rcases sendError_step Endpoint.server ha ho with ho | rfl
      · exact monotone (h.serverLink u ho)
      · exact hl u rfl
  · intro u ho
    have monotone : s.upIntact = false → t.upIntact = false := by
      intro hb
      by_contra hn
      rw [(intact_before hstep).1 (by simpa using hn)] at hb
      cases hb
    rcases hstep.atNp with hn | ⟨a, ha, hn, _, hl⟩
    · rw [hn] at ho
      exact monotone (h.npLink u ho)
    · rw [hn] at ho
      rcases sendError_step Endpoint.np ha ho with ho | rfl
      · exact monotone (h.npLink u ho)
      · exact hl u rfl

theorem peer_of_writing (hi : Tunnel.Invariant s) {u : U} {b : UInt8} {rest : Bytes}
    (hw : (s.np.port u).phase = .writing (b :: rest)) : (s.server.port u).phase ≠ .absent := by
  intro ha
  have hfresh := (hi.serverPorts u).unborn ha
  have htaken : (s.np.port u).taken = [] := by
    have hp := ByteStream.taken_in_order (hi.downward u)
    rw [hfresh] at hp
    exact List.prefix_nil.mp hp
  have hbytes := ((hi.npPorts u).writes.inLoop (by simp [hw, Phase.looping])).1
  simp [hw, unwritten, htaken, bytesOf] at hbytes

theorem breaksOff_half_open (hi : Tunnel.Invariant s) (he : Enabled s e) (up : Up s)
    (hb : BreaksOff s e) : Up (next s e) ∧ ¬ NoHalfOpen (next s e) := by
  obtain ⟨hserver, hnp, hup, hdown⟩ := up
  have atServer (u : U) (p : Endpoint.Port) (loop : (s.server.port u).phase.looping = true)
      (out : p.phase.out ≠ none) (hd : ¬ Done (s.np.port u)) :
      ¬ NoHalfOpen { s with server := Endpoint.setPort s.server u p } := by
    intro hno
    have hborn : Spawned s u := hi.handshake.accepted u (Or.inr (hi.handshake.serving u
      (by intro ha; simp [ha, Phase.looping] at loop)))
    have hest : Established { s with server := Endpoint.setPort s.server u p } u :=
      ⟨by intro ha; simp at ha; simp [ha, Phase.out] at out, hborn⟩
    have htold := (hno u hest).1 (by simpa using out)
    exact hd (told_done (hi.downward u) (hi.serverPorts u) loop hnp htold)
  cases e with
  | server a =>
    obtain ⟨_, ha, _⟩ := he
    cases a with
    | writeFail u =>
      obtain ⟨b, rest, hp⟩ := ha
      refine ⟨⟨hserver, hnp, hup, hdown⟩, ?_⟩
      exact atServer u _ (by simp [hp, Phase.looping]) (by simp [afterWrite, Phase.out]) hb
    | read u r =>
      cases r with
      | error =>
        refine ⟨⟨hserver, hnp, hup, hdown⟩, ?_⟩
        refine atServer u _ (by simp [ha.1, Phase.looping]) ?_ hb
        simp [Endpoint.Port.receiveBytes, Endpoint.server, serveSocket, Phase.out]
      | size | elapsed => exact absurd hb id
    | register | receive | lookup | enqueue | refuse | pop | closed | write | wrote | send
    | teardown | remove | stop | clear | drop => exact absurd hb id
  | np a =>
    obtain ⟨_, ha, _⟩ := he
    cases a with
    | writeFail u =>
      obtain ⟨b, rest, hp⟩ := ha
      refine ⟨⟨hserver, hnp, hup, hdown⟩, ?_⟩
      intro hno
      have hest : Established (next s (.np (.writeFail u))) u :=
        ⟨peer_of_writing hi hp, by simp [next, Endpoint.next, afterWrite]⟩
      have htold := (hno u hest).2 (by simp [next, Endpoint.next, afterWrite, Phase.out])
      exact hb (told_done (hi.upward u) (hi.npPorts u) (by simp [hp, Phase.looping]) hserver
        htold)
    | register | receive | lookup | enqueue | refuse | pop | closed | write | wrote | read
    | send | teardown | remove | stop | clear | drop => exact absurd hb id
  | accept | connect | wake | spawn | serverReceive | serverSend | npReceive | dial | answer
  | npSend => exact absurd hb id

/-- As long as the session is up, no connection is half open exactly when no task breaks
off before the other end is done. -/
theorem no_half_open_iff {tr : List (State U × Event U)} {s : State U}
    (h : Run tunnel tr s) :
    (∀ t ∈ visited tr s, Up t → NoHalfOpen t) ↔
      ∀ p ∈ tr, Up p.1 → ¬ BreaksOff p.1 p.2 := by
  refine Path.forall_visited_iff (J := Orderly) (C := fun t e => Up t → ¬ BreaksOff t e)
    ?_ (fun _ hj => hj.no_half_open) ?_ h initial_orderly
  · intro t e hj he hc
    exact step_orderly hj (next_step he) hc
  · intro t e hj he hc hn
    obtain ⟨up, hb⟩ : Up t ∧ BreaksOff t e := by simpa using hc
    obtain ⟨hup, hhalf⟩ := breaksOff_half_open hj.base he up hb
    exact hhalf (hn hup)

/-- The local service of np resets the connection while np writes to it. -/
def serviceResets : List (Event Unit) :=
  establish () ++ serverToNp () [71] ++ [.np .lookup, .np .enqueue, .np (.pop ()),
    .np (.writeFail ()), .np (.teardown ()), .np (.remove ())]

theorem serviceResets_accepted : Accepts tunnel initial serviceResets := by decide

theorem service_reset_leaves_half_open :
    ∃ s : State Unit, Reachable tunnel s ∧ Up s ∧ Established s () ∧
      (s.np.port ()).phase = .ended .writeError ∧ (s.server.port ()).phase = .select ∧
      ¬ Told s.server s.up () := by
  refine ⟨_, reachable_of_accepts serviceResets_accepted, ?_, ?_, by decide, by decide, ?_⟩
  · exact ⟨by decide, by decide, by decide, by decide⟩
  · exact ⟨by decide, by decide⟩
  · rintro ((h | h) | h | h | h) <;> revert h <;> decide

theorem service_reset_breaks_off :
    ¬ ∀ p ∈ trace tunnel initial serviceResets, Up p.1 → ¬ BreaksOff p.1 p.2 := by
  intro hsafe
  have hrun := path_of_accepts serviceResets_accepted
  have hnone := (no_half_open_iff hrun).mpr hsafe _
    (List.mem_append_right _ (List.mem_singleton.mpr rfl))
    ⟨by decide, by decide, by decide, by decide⟩
  have htold := (hnone () ⟨by decide, by decide⟩).2 (by decide)
  rcases htold with (h | h) | h | h | h <;> revert h <;> decide

end HalfOpen
