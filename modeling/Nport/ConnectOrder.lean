import Nport.ConnectRequest
import Mathlib.Data.Fintype.Basic
import Mathlib.Data.Set.Finite.Basic

/-! The two races of the connect handshake. port::start spawns the reading task before
PortConnected is sent, and the session loop of the server may hand the next message to
port_message before the accept loop has registered the writer. Without them, every message
for a uuid is looked up after port_writer_register. -/
namespace ConnectOrder

open GuardedMachine
open PortTask
open Link
open Tunnel
open ConnectRequest

variable {U : Type*} [DecidableEq U]

def received (tr : List (State U × Event U)) : ℕ :=
  tr.countP fun p => p.2 = .serverReceive

/-- The session loop may still come to the frame that has n others before it. -/
def Arrives (s : State U) (n : ℕ) : Prop :=
  ∃ tr t, Path tunnel s tr t ∧ received tr = n ∧ Enabled t .serverReceive

/-- A message of np gets out before its PortConnected, or for a connection that the accept
loop has given up because the send of PortConnect failed. -/
def Ahead (s : State U) : Event U → Prop
  | .npSend u _ reached => reached = true ∧
      (s.dialing = some (u, .answering true) ∨ s.accept u = .failed)
  | _ => False

/-- The session loop takes the next message for a uuid, and the accept loop, which has its
PortConnected, has not run port_writer_register. -/
def Behind (s : State U) : Event U → Prop
  | .serverReceive =>
    match s.up with
    | .port u _ :: _ =>
      s.accept u = .registering ∨ (s.accept u = .waiting ∧ s.connected u = some true)
    | _ => False
  | _ => False

/-- What a step must meet. A message that the session loop never comes to does no harm. -/
def InOrder (s : State U) (e : Event U) : Prop :=
  (Ahead s e → ¬ Arrives (next s e) s.up.length) ∧ ¬ Behind s e

omit [DecidableEq U] in
theorem behind_iff {s : State U} : Behind s .serverReceive ↔
    ∃ u m rest, s.up = .port u m :: rest ∧
      (s.accept u = .registering ∨ (s.accept u = .waiting ∧ s.connected u = some true)) := by
  rcases hup : s.up with _ | ⟨f, rest⟩
  · simp [Behind, hup]
  · cases f with
    | control c => simp [Behind, hup]
    | port u m => simp [Behind, hup, and_assoc]

/-- What holds in every run, in order or not. -/
structure Backed (s : State U) : Prop where
  base : Tunnel.Invariant s
  pending : Pending s
  confirmed : ∀ u, s.accept u = .registering ∨ s.accept u = .spawned → s.connected u = some true
  finite : {u | (s.server.port u).phase ≠ .absent}.Finite

theorem initial_backed : Backed (initial : State U) := by
  refine ⟨Tunnel.initial_invariant, initial_pending, ?_, ?_⟩ <;>
    simp [initial, Endpoint.initial, Endpoint.Port.fresh]

variable {s t : State U} {e : Event U}

theorem connected_stays (hp : Pending s) (h : Step s e t) {u : U}
    (hc : s.connected u = some true) : t.connected u = some true := by
  have hz := hp.answered u (by simp [hc])
  rcases connected_step h u with ⟨hs, _⟩ | ⟨_, hs, _⟩ | hlost
  · rw [hs]; exact hc
  · rw [hs]; exact hc
  · omega

theorem confirmed_step (h : Backed s) (hstep : Step s e t) (u : U)
    (ht : t.accept u = .registering ∨ t.accept u = .spawned) : t.connected u = some true := by
  have stays := connected_stays h.pending hstep (u := u)
  generalize hl : t.accept u = l at ht
  cases hl ▸ hstep.acceptLoop u with
  | kept => exact stays (h.confirmed u ht)
  | accepted => simp at ht
  | connected ok => cases ok <;> simp at ht
  | woken answer _ hc =>
    cases answer with
    | true => exact stays hc
    | false => simp at ht
  | spawned ha => exact stays (h.confirmed u (Or.inl ha))

theorem finite_step (h : Backed s) (hstep : Step s e t) :
    {u | (t.server.port u).phase ≠ .absent}.Finite := by
  rcases hstep.atServer with ht | ⟨a, ha, ht, _⟩
  · rw [ht]; exact h.finite
  · by_cases hreg : ∃ v, a = .register v
    · obtain ⟨v, rfl⟩ := hreg
      refine (h.finite.insert v).subset fun u hu => ?_
      by_cases hv : u = v
      · exact Or.inl hv
      · exact Or.inr (by simpa [ht, Endpoint.next, hv] using hu)
    · refine h.finite.subset fun u hu hb => hu ?_
      rw [ht]
      exact Endpoint.unborn_step Endpoint.server ha (fun hv => hreg ⟨u, hv⟩) hb

theorem step_backed (h : Backed s) (hstep : Step s e t) : Backed t :=
  ⟨Tunnel.step_invariant h.base hstep, step_pending h.pending hstep, confirmed_step h hstep,
    finite_step h hstep⟩

theorem path_backed {tr : List (State U × Event U)} (hs : Backed s) (h : Path tunnel s tr t) :
    Backed t :=
  Path.invariant (M := tunnel) (fun _ _ hb he => step_backed hb (next_step he)) h hs

/-- PortConnected of u is on its way or has been handed over. -/
theorem Backed.not_confirmed (h : Backed s) {u : U}
    (hu : .control (u, true) ∈ s.up ∨ s.connected u = some true) :
    s.accept u ≠ .idle ∧ s.accept u ≠ .requested ∧ s.connected u ≠ some false := by
  have hsent : s.connected u ≠ some true → 1 ≤ tokens s u := by
    intro hc
    have hmem := hu.resolve_right hc
    have hone : 1 ≤ answers u s.up :=
      List.one_le_countP_iff.mpr ⟨_, hmem, by simp [isControl]⟩
    unfold tokens
    omega
  have early : ¬ (s.accept u = .idle ∨ s.accept u = .requested) := by
    intro ha
    obtain ⟨hz, hn⟩ := h.pending.fresh u ha
    have := hsent (by simp [hn])
    omega
  refine ⟨fun ha => early (Or.inl ha), fun ha => early (Or.inr ha), fun hc => ?_⟩
  have hz := h.pending.answered u (by simp [hc])
  have := hsent (by simp [hc])
  omega

/-! What the wire keeps in order. -/

/-- What a step does to the wire to the server: it takes the head, or adds at the end. -/
theorem up_step (h : Step s e t) :
    (e = .serverReceive ∧ ∃ head, s.up = head :: t.up) ∨
      (e ≠ .serverReceive ∧ (t.up = s.up ∨ (∃ c, t.up = s.up ++ [.control c]) ∨
        ∃ u m ok, e = .npSend u ok true ∧ (s.np.port u).phase = .sending m ∧
          s.upIntact = true ∧ t.up = s.up ++ [.port u m])) := by
  cases h with
  | connected v ok rest hu | noRequest v ok rest hu | portMessage v m rest hu =>
    exact Or.inl ⟨rfl, _, hu⟩
  | answer v result ok reached =>
    refine Or.inr ⟨by simp, ?_⟩
    cases reached with
    | true => exact Or.inr (Or.inl ⟨_, rfl⟩)
    | false => exact Or.inl rfl
  | npSend v m ok reached hp _ hl _ =>
    refine Or.inr ⟨by simp, ?_⟩
    cases reached with
    | true => exact Or.inr (Or.inr ⟨v, m, ok, rfl, hp, hl rfl, rfl⟩)
    | false => exact Or.inl rfl
  | accept | connect | wake | spawn | serverSend | server | portConnect | npMessage | dialed
  | undialed | np => exact Or.inr ⟨by simp, Or.inl rfl⟩

theorem connected_kept (h : Step s e t) {u : U}
    (other : ∀ ok rest, e = .serverReceive → s.up ≠ .control (u, ok) :: rest) :
    t.connected u = s.connected u := by
  cases h with
  | connected v ok rest hu _ =>
    have hv : u ≠ v := by
      rintro rfl
      exact other ok rest rfl hu
    simp [hv]
  | accept | connect | wake | spawn | noRequest | portMessage | serverSend | server
  | portConnect | npMessage | dialed | undialed | answer | npSend | np => rfl

theorem failed_stays (h : Step s e t) {u : U} (hf : s.accept u = .failed) :
    t.accept u = .failed := by
  generalize hl : t.accept u = l
  cases hl ▸ h.acceptLoop u with
  | kept => exact hf
  | accepted ha | connected _ _ ha | woken _ ha | spawned ha =>
    rw [hf] at ha
    cases ha

theorem Arrives.before {n : ℕ} (he : Enabled s e)
    (h : Arrives (next s e) n) : Arrives s (n + if e = .serverReceive then 1 else 0) := by
  obtain ⟨tr, t, hp, hn, ht⟩ := h
  have hone : Path tunnel s [(s, e)] (next s e) := .tail .refl he
  refine ⟨_, t, hone.trans hp, ?_, ht⟩
  simp only [received, List.countP_append, List.countP_singleton, decide_eq_true_eq] at hn ⊢
  omega

/-! In order. -/

/-- What is known of a frame that the session loop may come to, from the frames before it. -/
def Comes (s : State U) (before : List (Frame U (U × Bool))) : Frame U (U × Bool) → Prop
  | .control _ => True
  | .port u _ => Arrives s before.length →
      (.control (u, true) ∈ before ∨ s.connected u = some true) ∧ s.accept u ≠ .failed

structure Ordered (s : State U) : Prop where
  backed : Backed s
  /-- where the good answer of np for u is -/
  told : ∀ u, Spawned s u → s.dialing = some (u, .answering true) ∨ s.upIntact = false ∨
    .control (u, true) ∈ s.up ∨ s.connected u = some true
  queued : Each (Comes s) s.up
  carried : ∀ u m, s.server.dispatcher = .lookup u m → (s.server.port u).phase ≠ .absent
  served : ∀ u, s.accept u = .spawned → (s.server.port u).phase ≠ .absent

theorem initial_ordered : Ordered (initial : State U) := by
  refine ⟨initial_backed, ?_, each_nil, ?_, ?_⟩ <;>
    simp [initial, Endpoint.initial, Endpoint.Port.fresh, Spawned]

theorem told_step (h : Ordered s) (hstep : Step s e t) (u : U) (hb : Spawned t u) :
    t.dialing = some (u, .answering true) ∨ t.upIntact = false ∨
      .control (u, true) ∈ t.up ∨ t.connected u = some true := by
  have before (hb : Spawned s u) := h.told u hb
  have stays := fun hc => connected_stays h.backed.pending hstep (u := u) hc
  cases hstep with
  | connected v ok rest hu hc =>
    rcases before hb with hd | hi | hw | hc
    · exact Or.inl hd
    · exact Or.inr (Or.inl hi)
    · rw [hu, List.mem_cons] at hw
      rcases hw with hw | hw
      · obtain ⟨rfl, rfl⟩ : u = v ∧ true = ok := by simpa using hw
        simp
      · exact Or.inr (Or.inr (Or.inl hw))
    · exact Or.inr (Or.inr (Or.inr (stays hc)))
  | noRequest v ok rest hu hc _ =>
    rw [h.backed.pending.found hu] at hc
    cases hc
  | portMessage v m rest hu _ =>
    rcases before hb with hd | hi | hw | hc
    · exact Or.inl hd
    · exact Or.inr (Or.inl hi)
    · rw [hu, List.mem_cons] at hw
      rcases hw with hw | hw
      · cases hw
      · exact Or.inr (Or.inr (Or.inl hw))
    · exact Or.inr (Or.inr (Or.inr hc))
  | portConnect v rest hw hd =>
    rcases before hb with hd' | hrest
    · rw [hd] at hd'
      cases hd'
    · exact Or.inr hrest
  | dialed v hd hr =>
    by_cases hv : u = v
    · subst hv; exact Or.inl rfl
    · have hb' : Spawned s u := by simpa [Spawned, Endpoint.next, hv] using hb
      rcases before hb' with hd' | hrest
      · rw [hd] at hd'
        cases hd'
      · exact Or.inr hrest
  | undialed v hd =>
    rcases before hb with hd' | hrest
    · rw [hd] at hd'
      cases hd'
    · exact Or.inr hrest
  | answer v result ok reached hd _ =>
    rcases before hb with hd' | hi | hw | hc
    · rw [hd] at hd'
      obtain ⟨rfl, rfl⟩ : v = u ∧ result = true := by simpa using hd'
      cases reached with
      | true => right; right; left; simp [transmit]
      | false => right; left; simp
    · right; left; simp [hi]
    · right; right; left
      exact mem_transmit.mpr (Or.inl hw)
    · exact Or.inr (Or.inr (Or.inr hc))
  | npSend v m ok reached hp hs _ _ =>
    have hb' : Spawned s u := by
      intro ha
      exact hb (Endpoint.unborn_step Endpoint.np hs (by simp) ha)
    rcases before hb' with hd | hi | hw | hc
    · exact Or.inl hd
    · right; left; simp [hi]
    · right; right; left
      exact mem_transmit.mpr (Or.inl hw)
    · exact Or.inr (Or.inr (Or.inr hc))
  | npMessage v m rest hw _ hr => exact before hb
  | np a hl ha _ =>
    refine before fun hu => hb (Endpoint.unborn_step Endpoint.np ha ?_ hu)
    rintro rfl
    exact hl
  | accept | connect | wake | spawn | serverSend | server => exact before hb

theorem waited_step (h : Backed s) (hstep : Step s e t) {u : U}
    (hu : .control (u, true) ∈ s.up ∨ s.connected u = some true) (ha : s.accept u ≠ .failed) :
    t.accept u ≠ .failed := by
  obtain ⟨_, hreq, hno⟩ := h.not_confirmed hu
  intro hf
  generalize hl : t.accept u = l at hf
  cases hl ▸ hstep.acceptLoop u with
  | kept => exact ha hf
  | connected _ _ hbefore => exact hreq hbefore
  | woken answer _ hc =>
    cases answer with
    | true => simp at hf
    | false => exact hno hc
  | accepted | spawned => simp at hf

theorem Comes.stays (h : Backed s) (he : Enabled s e) (hne : e ≠ .serverReceive)
    {before : List (Frame U (U × Bool))} {f : Frame U (U × Bool)} (sub : before ⊆ s.up)
    (hc : Comes s before f) : Comes (next s e) before f := by
  cases f with
  | control => trivial
  | port u m =>
    intro harr
    obtain ⟨hu, ha⟩ := hc (by simpa [hne] using harr.before he)
    have hup := hu.imp_left fun hm => sub hm
    exact ⟨hu.imp_right (connected_stays h.pending (next_step he)),
      waited_step h (next_step he) hup ha⟩

theorem Comes.taken (h : Backed s) (he : Enabled s .serverReceive)
    {before : List (Frame U (U × Bool))} {head f : Frame U (U × Bool)}
    (hup : s.up = head :: (next s .serverReceive).up) (sub : before ⊆ (next s .serverReceive).up)
    (hc : Comes s (head :: before) f) : Comes (next s .serverReceive) before f := by
  cases f with
  | control => trivial
  | port u m =>
    intro harr
    obtain ⟨hu, ha⟩ := hc (by simpa using harr.before he)
    have hall : .control (u, true) ∈ s.up ∨ s.connected u = some true := by
      refine hu.imp_left fun hm => ?_
      rw [hup]
      exact List.cons_subset_cons head sub hm
    refine ⟨?_, waited_step h (next_step he) hall ha⟩
    rcases hu with hm | hc
    · rcases List.mem_cons.mp hm with rfl | hm
      · right
        have hreq := h.pending.found hup
        have hnext : next s .serverReceive = serverReceive s := rfl
        rw [hnext, serverReceive, hup]
        simp [hreq]
      · exact Or.inl hm
    · exact Or.inr (connected_stays h.pending (next_step he) hc)

theorem queued_step (h : Ordered s) (he : Enabled s e) (order : InOrder s e) :
    Each (Comes (next s e)) (next s e).up := by
  have kept (hne : e ≠ .serverReceive) : Each (Comes (next s e)) s.up := by
    intro before f after heq
    refine (h.queued before f after heq).stays h.backed he hne ?_
    rw [heq]
    exact List.subset_append_left _ _
  rcases up_step (next_step he) with ⟨rfl, head, hup⟩ | ⟨hne, hup | ⟨c, hup⟩ | hsent⟩
  · intro before f after heq
    refine (h.queued (head :: before) f after (by rw [hup, heq]; rfl)).taken h.backed he hup ?_
    rw [heq]
    exact List.subset_append_left _ _
  · rw [hup]
    exact kept hne
  · rw [hup]
    exact each_concat.mpr ⟨kept hne, trivial⟩
  · obtain ⟨u, m, ok, rfl, hphase, hopen, hup⟩ := hsent
    have hborn : Spawned s u := by simp [Spawned, hphase]
    rw [hup]
    refine each_concat.mpr ⟨kept hne, fun harr => ?_⟩
    obtain ⟨hdial, hgiven⟩ := not_or.mp fun ha => order.1 ⟨rfl, ha⟩ harr
    have htold : .control (u, true) ∈ s.up ∨ s.connected u = some true := by
      rcases h.told u hborn with hd | hi | hw
      · exact absurd hd hdial
      · rw [hopen] at hi
        cases hi
      · exact hw
    exact ⟨htold.imp_right (connected_stays h.backed.pending (next_step he)),
      waited_step h.backed (next_step he) htold hgiven⟩

theorem Ordered.taken_served (h : Ordered s) (he : Enabled s .serverReceive)
    (order : InOrder s .serverReceive) {u : U} {m : PortMessage}
    {rest : List (Frame U (U × Bool))} (hup : s.up = .port u m :: rest) :
    (s.server.port u).phase ≠ .absent := by
  have harr : Arrives s 0 := ⟨[], s, .refl, rfl, he⟩
  obtain ⟨htold, hgiven⟩ := h.queued [] (.port u m) rest hup harr
  have hc : s.connected u = some true := by simpa using htold
  obtain ⟨hidle, hreq, _⟩ := h.backed.not_confirmed (Or.inr hc)
  have onTime : ¬ (s.accept u = .registering ∨ (s.accept u = .waiting ∧
      s.connected u = some true)) := fun hb => order.2 (behind_iff.mpr ⟨u, m, rest, hup, hb⟩)
  apply h.served u
  cases ha : s.accept u with
  | idle => exact absurd ha hidle
  | requested => exact absurd ha hreq
  | waiting => exact absurd (Or.inr ⟨ha, hc⟩) onTime
  | registering => exact absurd (Or.inl ha) onTime
  | spawned => rfl
  | failed => exact absurd ha hgiven

theorem carried_step (h : Ordered s) (he : Enabled s e) (order : InOrder s e) (u : U)
    (m : PortMessage) (hd : (next s e).server.dispatcher = .lookup u m) :
    ((next s e).server.port u).phase ≠ .absent := by
  have hstep := next_step he
  have still (hb : s.server.dispatcher = .lookup u m) :
      ((next s e).server.port u).phase ≠ .absent := by
    rcases hstep.atServer with ht | ⟨a, ha, ht, _⟩
    · rw [ht]; exact h.carried u m hb
    · rw [ht]; exact Endpoint.born_step Endpoint.server ha (h.carried u m hb)
  generalize ht : next s e = t at hstep hd still
  cases hstep with
  | spawn v _ hr => exact still (Endpoint.lookup_before Endpoint.server hr (by simp) hd)
  | noRequest v ok rest _ _ hs =>
    exact still (Endpoint.lookup_before Endpoint.server hs (by simp) hd)
  | portMessage v k rest hu _ =>
    obtain ⟨rfl, rfl⟩ : v = u ∧ k = m := by simpa [Endpoint.next] using hd
    exact h.taken_served he order hu
  | serverSend v k ok reached _ hs _ _ =>
    exact still (Endpoint.lookup_before Endpoint.server hs (by simp) hd)
  | server a hl ha _ =>
    exact still (Endpoint.lookup_before Endpoint.server ha (hl.not_receive u m) hd)
  | accept | connect | wake | connected | portConnect | npMessage | dialed | undialed | answer
  | npSend | np => exact still hd

theorem served_step (h : Ordered s) (hstep : Step s e t) (u : U)
    (hs : t.accept u = .spawned) : (t.server.port u).phase ≠ .absent := by
  have still (hb : s.accept u = .spawned) : (t.server.port u).phase ≠ .absent := by
    rcases hstep.atServer with ht | ⟨a, ha, ht, _⟩
    · rw [ht]; exact h.served u hb
    · rw [ht]; exact Endpoint.born_step Endpoint.server ha (h.served u hb)
  generalize hl : t.accept u = l at hs
  cases hl ▸ hstep.acceptLoop u with
  | kept => exact still hs
  | connected ok | woken ok => cases ok <;> simp at hs
  | spawned _ he =>
    subst he
    cases hstep with
    | spawn => simp [Endpoint.next]
  | accepted => simp at hs

theorem step_ordered (h : Ordered s) (he : Enabled s e) (order : InOrder s e) :
    Ordered (next s e) :=
  ⟨step_backed h.backed (next_step he), told_step h (next_step he), queued_step h he order,
    carried_step h he order, served_step h (next_step he)⟩

/-! Out of order. -/

/-- A message is about to be looked up, and its uuid never had a writer. -/
def Rejects (s : State U) : Prop :=
  Enabled s (.server .lookup) ∧
    ∃ u m, s.server.dispatcher = .lookup u m ∧ (s.server.port u).phase = .absent

theorem Backed.unspawned (h : Backed s) {u : U} (hs : s.accept u ≠ .spawned) :
    (s.server.port u).phase = .absent := by
  by_contra hp
  exact hs (h.base.handshake.serving u hp)

theorem removals_done (l : List U) {s : State U} {u : U} {m : PortMessage}
    (hd : s.server.dispatcher = .lookup u m) (ha : (s.server.port u).phase = .absent)
    (only : ∀ v, (s.server.port v).phase.isRemoving = true → v ∈ l) :
    ∃ tr t, Path tunnel s tr t ∧ Rejects t := by
  induction l generalizing s with
  | nil =>
    have none : ∀ v, (s.server.port v).phase.isRemoving = false :=
      fun v => Bool.eq_false_iff.mpr fun hv => List.not_mem_nil (only v hv)
    exact ⟨[], s, .refl, ⟨trivial, ⟨⟨u, m, hd⟩, none⟩, by simp⟩, u, m, hd, ha⟩
  | cons v l ih =>
    by_cases hv : ∃ why, (s.server.port v).phase = .removing why
    · have free : ¬ Endpoint.Reading s.server := by
        rintro ⟨w, k, hw⟩
        rw [hd] at hw
        cases hw
      have he : Enabled s (.server (.remove v)) := ⟨trivial, ⟨hv, free⟩, by simp⟩
      have hone : Path tunnel s [(s, .server (.remove v))] (next s (.server (.remove v))) :=
        .tail .refl he
      obtain ⟨why, hv⟩ := hv
      have hne : u ≠ v := by
        rintro rfl
        rw [ha] at hv
        cases hv
      have left : ∀ w, ((next s (.server (.remove v))).server.port w).phase.isRemoving = true →
          w ∈ l := by
        intro w hw
        by_cases hwv : w = v
        · subst hwv
          simp [next, Endpoint.next, Endpoint.Port.remove, hv, Phase.isRemoving] at hw
        · have := only w (by simpa [next, Endpoint.next, hwv] using hw)
          exact (List.mem_cons.mp this).resolve_left hwv
      obtain ⟨tr, t, hp, ht⟩ := ih (s := next s (.server (.remove v)))
        (by simpa [next, Endpoint.next] using hd) (by simpa [next, Endpoint.next, hne] using ha)
        left
      exact ⟨_, t, hone.trans hp, ht⟩
    · refine ih hd ha fun w hw => (List.mem_cons.mp (only w hw)).resolve_left ?_
      rintro rfl
      cases hp : (s.server.port w).phase <;> simp_all [Phase.isRemoving]

theorem Backed.rejects (h : Backed s) {u : U} {m : PortMessage}
    (hd : s.server.dispatcher = .lookup u m) (ha : (s.server.port u).phase = .absent) :
    ∃ tr t, Path tunnel s tr t ∧ Rejects t := by
  refine removals_done h.finite.toFinset.toList hd ha fun v hv => ?_
  have hborn : (s.server.port v).phase ≠ .absent := by
    intro hv'
    simp [hv', Phase.isRemoving] at hv
  simpa using hborn

theorem Backed.taken_rejects (h : Backed s) (he : Enabled s .serverReceive) {u : U}
    {m : PortMessage} {rest : List (Frame U (U × Bool))} (hup : s.up = .port u m :: rest)
    (ha : (s.server.port u).phase = .absent) :
    ∃ tr t, Path tunnel (next s .serverReceive) tr t ∧ Rejects t := by
  have hserver : (next s .serverReceive).server =
      Endpoint.next Endpoint.server s.server (.receive u m) := by
    simp [next, serverReceive, hup]
  exact (step_backed h (next_step he)).rejects (u := u) (m := m) (by rw [hserver]; rfl)
    (by rw [hserver]; exact ha)

/-- The accept loop has given u up, or the frames before hold no answer for it. -/
def Unanswered (s : State U) (u : U) (before : List (Frame U (U × Bool))) : Prop :=
  s.accept u = .failed ∨ (s.connected u = none ∧ ∀ ok, .control (u, ok) ∉ before)

theorem unanswered_path {tr : List (State U × Event U)} (h : Path tunnel s tr t) {u : U}
    {m : PortMessage} {before after : List (Frame U (U × Bool))}
    (hup : s.up = before ++ .port u m :: after) (hu : Unanswered s u before)
    (hn : received tr ≤ before.length) :
    (∃ later, t.up = before.drop (received tr) ++ .port u m :: later) ∧
      Unanswered t u before := by
  induction h with
  | refl => exact ⟨⟨after, hup⟩, hu⟩
  | @tail tr r e _ he ih =>
    have hstep : Step r e (next r e) := next_step he
    have hcount : received (tr ++ [(r, e)]) =
        received tr + if e = .serverReceive then 1 else 0 := by
      simp [received, List.countP_append, List.countP_singleton]
    rw [hcount] at hn ⊢
    obtain ⟨⟨later, hr⟩, hanswer⟩ := ih (by omega)
    rcases up_step hstep with ⟨rfl, head, hhead⟩ | ⟨hne, hmore⟩
    · rw [if_pos rfl] at hn ⊢
      have hdrop := List.drop_eq_getElem_cons (l := before) (i := received tr) (by omega)
      rw [hr, hdrop, List.cons_append] at hhead
      obtain ⟨hfirst, htail⟩ := List.cons_eq_cons.mp hhead
      refine ⟨⟨later, htail.symm⟩, hanswer.imp (failed_stays hstep) fun ⟨hc, hno⟩ => ?_⟩
      refine ⟨(connected_kept hstep fun ok rest _ hu => ?_).trans hc, hno⟩
      rw [hr, hdrop, List.cons_append] at hu
      exact hno ok ((List.cons_eq_cons.mp hu).1 ▸ List.getElem_mem _)
    · rw [if_neg hne, Nat.add_zero]
      refine ⟨?_, hanswer.imp (failed_stays hstep) fun ⟨hc, hno⟩ =>
        ⟨(connected_kept hstep fun _ _ hrec => absurd hrec hne).trans hc, hno⟩⟩
      have hmore : ∃ more, (next r e).up = r.up ++ more := by
        rcases hmore with hup | ⟨c, hup⟩ | ⟨_, _, _, _, _, _, hup⟩
        · exact ⟨[], by simpa using hup⟩
        · exact ⟨_, hup⟩
        · exact ⟨_, hup⟩
      obtain ⟨more, hmore⟩ := hmore
      refine ⟨later ++ more, ?_⟩
      change (next r e).up = _
      simp [hmore, hr]

theorem Backed.unserved (h : Backed s) {u : U} {before : List (Frame U (U × Bool))}
    (hu : Unanswered s u before) : (s.server.port u).phase = .absent := by
  refine h.unspawned fun hs => ?_
  rcases hu with hf | ⟨hc, _⟩
  · rw [hs] at hf
    cases hf
  · rw [h.confirmed u (Or.inr hs)] at hc
    cases hc

/-- np is still to send its answer for u, so no other is on its way or was handed over. -/
theorem Backed.unanswered (h : Backed s) {u : U} (hd : s.dialing = some (u, .answering true)) :
    Unanswered s u s.up := by
  have hdial : dials u s.dialing = 1 := by simp [dials, hd]
  have hone := h.pending.unique u
  right
  constructor
  · by_contra hc
    have := h.pending.answered u hc
    unfold tokens at this
    omega
  · intro ok hmem
    have : 1 ≤ answers u s.up := List.one_le_countP_iff.mpr ⟨_, hmem, by simp [isControl]⟩
    unfold tokens at hone
    omega

theorem Backed.ahead_rejects (h : Backed s) (he : Enabled s e) (ha : Ahead s e)
    (harr : Arrives (next s e) s.up.length) :
    ∃ tr t, Path tunnel (next s e) tr t ∧ Rejects t := by
  cases e with
  | npSend u ok reached =>
    obtain ⟨m, hp⟩ := he.1
    obtain ⟨rfl, hcase⟩ := ha
    obtain ⟨tr, t, hpath, hn, ht⟩ := harr
    have hup : (next s (.npSend u ok true)).up = s.up ++ .port u m :: [] := by
      simp [next, npSend, hp, transmit]
    have hsame : Unanswered s u s.up → Unanswered (next s (.npSend u ok true)) u s.up := by
      simp [Unanswered, next, npSend, hp]
    have hun : Unanswered s u s.up := hcase.elim h.unanswered Or.inl
    obtain ⟨⟨later, hlater⟩, hend⟩ := unanswered_path hpath hup (hsame hun) (by omega)
    rw [hn, List.drop_length, List.nil_append] at hlater
    have hb : Backed t := path_backed (step_backed h (next_step he)) hpath
    obtain ⟨tr', t', hpath', hrejects⟩ := hb.taken_rejects ht hlater (hb.unserved hend)
    have hone : Path tunnel t [(t, .serverReceive)] (next t .serverReceive) := .tail .refl ht
    exact ⟨_, t', hpath.trans (hone.trans hpath'), hrejects⟩
  | accept | connect | wake | spawn | serverReceive | serverSend | server | npReceive | dial
  | answer | np => exact absurd ha id

/-- In a run in order, every message of np is looked up after the writer of its uuid was
registered. A step out of order may be followed by a message that is rejected. -/
theorem connect_order {tr : List (State U × Event U)} {s : State U} (h : Run tunnel tr s) :
    ((∀ p ∈ tr, InOrder p.1 p.2) →
      ∀ p ∈ tr, p.2 = .server .lookup → ∀ u m, p.1.server.dispatcher = .lookup u m →
        (p.1.server.port u).phase ≠ .absent) ∧
    (∀ e, Enabled s e → ¬ InOrder s e →
      ∃ tr' t, Path tunnel (next s e) tr' t ∧ Rejects t) := by
  have hbacked : Backed s := path_backed initial_backed h
  constructor
  · exact Path.forall_steps_where (M := tunnel) (I := Ordered) (C := InOrder)
      (Q := fun t e => e = .server .lookup → ∀ u m, t.server.dispatcher = .lookup u m →
        (t.server.port u).phase ≠ .absent)
      (fun _ _ hi he hc => step_ordered hi he hc) (fun _ _ hi _ _ _ => hi.carried) h
      initial_ordered
  · intro e he hc
    by_cases hb : Behind s e
    · cases e with
      | serverReceive =>
        obtain ⟨u, m, rest, hup, hb⟩ := behind_iff.mp hb
        refine hbacked.taken_rejects he hup (hbacked.unspawned ?_)
        rcases hb with ha | ⟨ha, _⟩ <;> simp [ha]
      | _ => exact absurd hb id
    · obtain ⟨ha, harr⟩ : Ahead s e ∧ Arrives (next s e) s.up.length := by
        by_contra hn
        exact hc ⟨fun ha harr => hn ⟨ha, harr⟩, hb⟩
      exact hbacked.ahead_rejects he ha harr

def greeted : List (Event Unit) :=
  [.accept (), .connect () true true, .npReceive, .dial true, .np (.read () (.size [1]))]

instance (s : State U) : (e : Event U) → Decidable (Ahead s e)
  | .npSend u _ reached => inferInstanceAs (Decidable (reached = true ∧
      (s.dialing = some (u, .answering true) ∨ s.accept u = .failed)))
  | .accept _ | .connect _ _ _ | .wake _ | .spawn _ | .serverReceive | .serverSend _ _ _
  | .server _ | .npReceive | .dial _ | .answer _ _ | .np _ => isFalse id

instance (s : State U) : (e : Event U) → Decidable (Behind s e)
  | .serverReceive =>
    match h : s.up with
    | .port u _ :: _ => decidable_of_iff
        (s.accept u = .registering ∨ (s.accept u = .waiting ∧ s.connected u = some true))
        (by simp [Behind, h])
    | .control _ :: _ | [] => isFalse (by simp [Behind, h])
  | .accept _ | .connect _ _ _ | .wake _ | .spawn _ | .serverSend _ _ _ | .server _
  | .npReceive | .dial _ | .answer _ _ | .npSend _ _ _ | .np _ => isFalse id

theorem connect_order_after_handshake :
    ((replay tunnel initial (establish () ++ npToServer () [1])).server.port ()).phase ≠
      .absent ∧
    ∃ tr t, Path tunnel (next (replay tunnel initial greeted) (.npSend () true true)) tr t ∧
      Rejects t := by
  constructor
  · have accepted : Accepts tunnel initial (establish () ++ npToServer () [1]) := by decide
    have path := (path_of_accepts accepted).tail (e := .server .lookup) (by decide)
    have inTime : ∀ p ∈ trace tunnel initial (establish () ++ npToServer () [1]) ++
        [(replay tunnel initial (establish () ++ npToServer () [1]), .server .lookup)],
        ¬ Ahead p.1 p.2 ∧ ¬ Behind p.1 p.2 := by decide
    have last := List.mem_append_right (trace tunnel initial (establish () ++ npToServer () [1]))
      (List.mem_singleton_self
        (replay tunnel initial (establish () ++ npToServer () [1]), Event.server .lookup))
    refine (connect_order path).1 (fun p hp => ?_) _ last rfl () (.data [1]) rfl
    exact ⟨fun ha => absurd ha (inTime p hp).1, (inTime p hp).2⟩
  · have accepted : Accepts tunnel initial greeted := by decide
    refine (connect_order (path_of_accepts accepted)).2 (.npSend () true true) (by decide) ?_
    exact fun order => order.1 (by decide) ⟨[], _, .refl, rfl, by decide⟩

def overtaken : List (Event Unit) := greeted ++ [.npSend () true true, .serverReceive]

/-- PortConnected is handled, and the next message comes before the accept loop. -/
def acceptLoopBehind : List (Event Unit) :=
  [.accept (), .connect () true true, .npReceive, .dial true, .answer true true,
    .serverReceive] ++ npToServer () [1]

theorem first_bytes_rejected :
    (∃ s : State Unit, Reachable tunnel s ∧ Enabled s (.server .lookup) ∧
      s.server.dispatcher = .lookup () (.data [1]) ∧ s.connected () = none ∧
      (s.server.port ()).phase = .absent ∧
      (next s (.server .lookup)).server.running = false) ∧
    (∃ s : State Unit, Reachable tunnel s ∧ Enabled s (.server .lookup) ∧
      s.server.dispatcher = .lookup () (.data [1]) ∧ s.connected () = some true ∧
      (s.server.port ()).phase = .absent ∧
      (next s (.server .lookup)).server.running = false) := by
  constructor
  · have accepted : Accepts tunnel initial overtaken := by decide
    exact ⟨_, reachable_of_accepts accepted, by decide, by decide, by decide, by decide,
      by decide⟩
  · have accepted : Accepts tunnel initial acceptLoopBehind := by decide
    exact ⟨_, reachable_of_accepts accepted, by decide, by decide, by decide, by decide,
      by decide⟩

end ConnectOrder
