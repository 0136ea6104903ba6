import Nport.Tunnels

/-! Whether a tunnel is announced to its client before traffic for it is sent there. A hostname
can be found from the moment it is added and a port accepts from the moment it is bound, while
the answer that announces them waits for the lock of the sender like any other message. -/
namespace AnnouncementOrder

open GuardedMachine
open Libnp
open Registry (Hostname)
open Forwardings
open Tunnels

variable {C Q : Type*} [DecidableEq C] [DecidableEq Q]

def sent (s : State C Q) : List (Message Q) := s.handled ++ s.inFlight

def AnnouncesHost (hostname : Hostname) : Message Q → Prop
  | .announce (.httpOpened msg) => msg.hostname = hostname ∧ msg.error = none
  | _ => False

def AnnouncesPort (address : Address) : Message Q → Prop
  | .announce (.portOpened msg) =>
    msg.protocol = 0 ∧ msg.remoteAddress = some address ∧ msg.error = none
  | _ => False

def Announced (before : List (Message Q)) : Message Q → Prop
  | .announce _ => True
  | .httpRequest _ hostname => ∃ m ∈ before, AnnouncesHost hostname m
  | .portConnect _ address => ∃ m ∈ before, AnnouncesPort address m

def InOrder (l : List (Message Q)) : Prop :=
  ∀ before m after, l = before ++ m :: after → Announced before m

def stands (hostname : Hostname) (before : Bool) : Message Q → Bool
  | .announce a => a.stands hostname before
  | _ => before

def standing (hostname : Hostname) (l : List (Message Q)) : Bool :=
  l.foldl (stands hostname) false

/-- Traffic is only taken for what has been announced. -/
def AfterAnnouncement (cfg : Config) (s : State C Q) : Event C Q → Prop
  | .route _ hostname => standing hostname (sent s) = true
  | .accept _ port => ∃ m ∈ sent s, AnnouncesPort (remoteAddr cfg port).toAddress m
  | _ => True

instance (address : Address) (m : Message Q) : Decidable (AnnouncesPort address m) :=
  match m with
  | .announce (.portOpened _) => inferInstanceAs (Decidable (_ ∧ _))
  | .announce (.httpOpened _) | .announce (.httpClosed _) | .httpRequest _ _
  | .portConnect _ _ => isFalse id

instance (cfg : Config) (s : State C Q) (e : Event C Q) :
    Decidable (AfterAnnouncement cfg s e) :=
  match e with
  | .route _ _ => inferInstanceAs (Decidable (_ = _))
  | .accept _ _ => inferInstanceAs (Decidable (∃ m ∈ sent s, _))
  | .other _ | .otherListens _ | .otherCloses _ | .register | .request _ | .receive _
  | .claim _ _ | .add _ _ | .release _ | .unclaim _ | .bind _ _ _ | .failBind _ _
  | .registerPort _ _ _ | .reply _ | .sendRequest _ _ | .sendConnect _ _ | .handle =>
    isTrue trivial

omit [DecidableEq Q] in
theorem stands_true {hostname : Hostname} {before : Bool} {m : Message Q}
    (h : stands hostname before m = true) : before = true ∨ AnnouncesHost hostname m := by
  cases m with
  | announce a =>
    cases a with
    | httpOpened msg => simpa [stands, Announcement.stands, AnnouncesHost] using h
    | httpClosed msg =>
      simp only [stands, Announcement.stands, Bool.and_eq_true] at h
      exact Or.inl h.1
    | portOpened msg => exact Or.inl h
  | httpRequest => exact Or.inl h
  | portConnect => exact Or.inl h

omit [DecidableEq Q] in
theorem announced_of_standing {hostname : Hostname} {l : List (Message Q)}
    (h : standing hostname l = true) : ∃ m ∈ l, AnnouncesHost hostname m := by
  induction l using List.reverseRecOn with
  | nil => simp [standing] at h
  | append_singleton l m ih =>
    rw [standing, List.foldl_append] at h
    rcases stands_true h with hold | hann
    · obtain ⟨a, ha, hh⟩ := ih hold
      exact ⟨a, List.mem_append_left _ ha, hh⟩
    · exact ⟨m, by simp, hann⟩

omit [DecidableEq Q] in
theorem inOrder_nil : InOrder ([] : List (Message Q)) := each_nil

omit [DecidableEq Q] in
theorem announced_mono {before more : List (Message Q)} {m : Message Q}
    (hsub : before ⊆ more) (h : Announced before m) : Announced more m := by
  cases m with
  | announce => trivial
  | httpRequest q hostname =>
    obtain ⟨a, ha, hm⟩ := h
    exact ⟨a, hsub ha, hm⟩
  | portConnect q address =>
    obtain ⟨a, ha, hm⟩ := h
    exact ⟨a, hsub ha, hm⟩

omit [DecidableEq Q] in
theorem inOrder_concat {l : List (Message Q)} {m : Message Q} :
    InOrder (l ++ [m]) ↔ InOrder l ∧ Announced l m :=
  each_concat

def sends (cfg : Config) : Event C Q → List (Message Q)
  | .reply answer => [.announce answer]
  | .sendRequest q h => [.httpRequest q h]
  | .sendConnect q port => [.portConnect q (remoteAddr cfg port).toAddress]
  | _ => []

variable {cfg : Config} {me : C}

theorem sent_next (cfg : Config) {s : State C Q} {e : Event C Q} (he : Enabled me s e) :
    sent (next cfg me s e) = sent s ++ sends cfg e := by
  cases e with
  | receive generated =>
    obtain ⟨r, rest, hr⟩ := List.exists_cons_of_ne_nil he.2
    simp [sent, sends, next, hr]
  | handle =>
    obtain ⟨m, rest, hm⟩ := List.exists_cons_of_ne_nil he
    simp [sent, sends, next, hm]
  | _ => simp [sent, sends, next]

/-- While the announcements come first: what was sent is in order, and so will be what is on
its way to be sent. -/
structure Orderly (cfg : Config) (s : State C Q) : Prop where
  order : InOrder (sent s)
  routed : ∀ q h, s.traffic q = .routed h → Announced (sent s) (.httpRequest q h)
  accepted : ∀ q port, s.traffic q = .accepted port →
    Announced (sent s) (.portConnect q (remoteAddr cfg port).toAddress)

def moves : Event C Q → Option (Q × Traffic)
  | .route q h => some (q, .routed h)
  | .accept q port => some (q, .accepted port)
  | .sendRequest q _ | .sendConnect q _ => some (q, .gone)
  | _ => none

theorem traffic_next (cfg : Config) (me : C) (s : State C Q) (e : Event C Q) :
    (next cfg me s e).traffic =
      match moves e with
      | some (q, x) => Function.update s.traffic q x
      | none => s.traffic := by
  cases e with
  | receive generated =>
    simp only [next, moves]
    split <;> rfl
  | handle =>
    simp only [next, moves]
    split <;> rfl
  | _ => rfl

theorem traffic_from {s : State C Q} {e : Event C Q} {q : Q} {x : Traffic}
    (h : (next cfg me s e).traffic q = x) : s.traffic q = x ∨ moves e = some (q, x) := by
  rw [traffic_next] at h
  cases hm : moves e with
  | none =>
    rw [hm] at h
    exact Or.inl h
  | some m =>
    obtain ⟨q', x'⟩ := m
    simp only [hm] at h
    by_cases hq : q = q'
    · subst hq
      rw [Function.update_self] at h
      exact Or.inr (by rw [h])
    · rw [Function.update_of_ne hq] at h
      exact Or.inl h

theorem routed_next {s : State C Q} {e : Event C Q} {q : Q} {h : Hostname}
    (hq : (next cfg me s e).traffic q = .routed h) :
    s.traffic q = .routed h ∨ e = .route q h := by
  rcases traffic_from hq with hold | hmoves
  · exact Or.inl hold
  · right
    cases e <;> simp [moves] at hmoves ⊢
    exact hmoves

theorem accepted_next {s : State C Q} {e : Event C Q} {q : Q} {port : UInt16}
    (hq : (next cfg me s e).traffic q = .accepted port) :
    s.traffic q = .accepted port ∨ e = .accept q port := by
  rcases traffic_from hq with hold | hmoves
  · exact Or.inl hold
  · right
    cases e <;> simp [moves] at hmoves ⊢
    exact hmoves

theorem orderly_step {s : State C Q} (h : Orderly cfg s) {e : Event C Q} (he : Enabled me s e)
    (hc : AfterAnnouncement cfg s e) : Orderly cfg (next cfg me s e) := by
  have hsent := sent_next cfg he
  have hsub : sent s ⊆ sent (next cfg me s e) := by
    rw [hsent]
    exact List.subset_append_left _ _
  constructor
  · rw [hsent]
    cases e with
    | reply answer => exact inOrder_concat.mpr ⟨h.order, trivial⟩
    | sendRequest q k => exact inOrder_concat.mpr ⟨h.order, h.routed q k he⟩
    | sendConnect q port => exact inOrder_concat.mpr ⟨h.order, h.accepted q port he⟩
    | _ => simpa [sends] using h.order
  · intro q k hq
    rcases routed_next hq with hold | rfl
    · exact announced_mono hsub (h.routed q k hold)
    · exact announced_mono hsub (announced_of_standing hc)
  · intro q port hq
    rcases accepted_next hq with hold | rfl
    · exact announced_mono hsub (h.accepted q port hold)
    · exact announced_mono hsub hc

/-! np's tables after what it has handled. -/

structure Remembered (s : State C Q) : Prop where
  tables : s.tables = s.handled.foldl deliver .empty
  port : ∀ address, (∃ m ∈ s.handled, AnnouncesPort address m) →
    s.tables.port (portOrigin .tcp (Addr.fromAddress (some address))) ≠ none

omit [DecidableEq Q] in
theorem deliver_http (t : Tables) (m : Message Q) (hostname : Hostname) :
    ((deliver t m).http hostname).isSome = stands hostname (t.http hostname).isSome m := by
  cases m with
  | announce a => exact apply_http_isSome t a hostname
  | httpRequest => rfl
  | portConnect => rfl

omit [DecidableEq Q] in
theorem foldl_deliver_http (l : List (Message Q)) (t : Tables) (hostname : Hostname) :
    ((l.foldl deliver t).http hostname).isSome =
      l.foldl (stands hostname) (t.http hostname).isSome := by
  induction l generalizing t with
  | nil => rfl
  | cons m l ih => rw [List.foldl_cons, List.foldl_cons, ih, deliver_http]

omit [DecidableEq Q] in
theorem closed_since {hostname : Hostname} {before since : List (Message Q)}
    (hbefore : standing hostname before = true)
    (hafter : standing hostname (before ++ since) = false) :
    ∃ msg, .announce (.httpClosed msg) ∈ since ∧ msg.hostname = hostname := by
  by_contra hnone
  have hkept : ∀ l : List (Message Q), l ⊆ since → l.foldl (stands hostname) true = true := by
    intro l hl
    induction l with
    | nil => rfl
    | cons m l ih =>
      have hm : stands hostname true m = true := by
        by_contra hclosed
        apply hnone
        cases m with
        | announce a =>
          cases a with
          | httpOpened msg => simp [stands, Announcement.stands] at hclosed
          | httpClosed msg =>
            refine ⟨msg, hl (by simp), ?_⟩
            simpa [stands, Announcement.stands] using hclosed
          | portOpened msg => simp [stands, Announcement.stands] at hclosed
        | httpRequest => simp [stands] at hclosed
        | portConnect => simp [stands] at hclosed
      rw [List.foldl_cons, hm]
      exact ih fun x hx => hl (List.mem_cons_of_mem _ hx)
  rw [standing, List.foldl_append, ← standing, hbefore, hkept since (List.Subset.refl _)] at hafter
  cases hafter

omit [DecidableEq Q] in
theorem deliver_port {t : Tables} {m : Message Q} {address : Address}
    (h : AnnouncesPort address m) :
    (deliver t m).port (portOrigin .tcp (Addr.fromAddress (some address))) ≠ none := by
  cases m with
  | announce a =>
    cases a with
    | portOpened msg =>
      obtain ⟨hp, hr, he⟩ := h
      exact port_after_opened t he (by simp [portOriginFromRaw, PortProtocol.tryFrom, hp, hr])
    | httpOpened => cases h
    | httpClosed => cases h
  | httpRequest => cases h
  | portConnect => cases h

omit [DecidableEq Q] in
theorem deliver_port_kept {t : Tables} (m : Message Q) {o : String} (hopen : t.port o ≠ none) :
    (deliver t m).port o ≠ none := by
  cases m with
  | announce a => exact port_kept a hopen
  | httpRequest => exact hopen
  | portConnect => exact hopen

theorem remembered_step {s : State C Q} (h : Remembered s) {e : Event C Q}
    (he : Enabled me s e) : Remembered (next cfg me s e) := by
  cases e with
  | handle =>
    obtain ⟨m, rest, hm⟩ := List.exists_cons_of_ne_nil he
    simp only [next, hm]
    constructor
    · simp [h.tables]
    · rintro address ⟨a, ha, hann⟩
      rcases List.mem_append.mp ha with ha | ha
      · exact deliver_port_kept m (h.port address ⟨a, ha, hann⟩)
      · obtain rfl := List.mem_singleton.mp ha
        exact deliver_port hann
  | receive generated =>
    simp only [next]
    split <;> exact ⟨h.tables, h.port⟩
  | _ => exact ⟨h.tables, h.port⟩

theorem orderly_of_run {s : State C Q} {tr : List (State C Q × Event C Q)}
    (hr : Run (session cfg me) tr s) (hc : ∀ p ∈ tr, AfterAnnouncement cfg p.1 p.2) :
    Orderly cfg s := by
  refine Path.invariant_where (M := session cfg me) (C := AfterAnnouncement cfg)
    (fun _ _ h he hc => orderly_step h he hc) hr ?_ hc
  refine ⟨inOrder_nil, ?_, ?_⟩
  · intro q h hq
    simp [session, initial] at hq
  · intro q port hq
    simp [session, initial] at hq

theorem remembered_of_run {s : State C Q} {tr : List (State C Q × Event C Q)}
    (hr : Run (session cfg me) tr s) : Remembered s := by
  refine Path.invariant (M := session cfg me) (fun _ _ h he => remembered_step h he) hr ?_
  refine ⟨rfl, ?_⟩
  rintro address ⟨m, hm, _⟩
  simp [session, initial] at hm

omit [DecidableEq C] [DecidableEq Q] in
theorem http_handled {s : State C Q} (h : Remembered s) (hostname : Hostname) :
    (s.tables.http hostname).isSome = standing hostname s.handled := by
  rw [h.tables, foldl_deliver_http]
  rfl

def RoutedBy (tr : List (State C Q × Event C Q)) (q : Q) (hostname : Hostname)
    (before : List (Message Q)) : Prop :=
  ∃ p ∈ tr, p.2 = .route q hostname ∧ sent p.1 <+: before

omit [DecidableEq C] [DecidableEq Q] in
theorem routedBy_mono {tr more : List (State C Q × Event C Q)} {q : Q} {hostname : Hostname}
    {before later : List (Message Q)} (htr : tr ⊆ more) (hsent : before <+: later)
    (h : RoutedBy tr q hostname before) : RoutedBy more q hostname later := by
  obtain ⟨p, hp, hroute, hbefore⟩ := h
  exact ⟨p, htr hp, hroute, hbefore.trans hsent⟩

/-- Every request was routed before it was sent. -/
theorem routed_of_run {s : State C Q} {tr : List (State C Q × Event C Q)}
    (hr : Run (session cfg me) tr s) :
    (∀ q h, s.traffic q = .routed h → RoutedBy tr q h (sent s)) ∧
    (∀ before q h after, sent s = before ++ .httpRequest q h :: after →
      RoutedBy tr q h before) := by
  induction hr with
  | refl =>
    constructor
    · intro q h hq
      simp [session, initial] at hq
    · intro before q h after hsent
      simp [session, sent, initial] at hsent
  | @tail tr s e hpath he ih =>
    obtain ⟨ihtraffic, ihsent⟩ := ih
    have hsent : sent (next cfg me s e) = sent s ++ sends cfg e := sent_next _ he
    have htr : tr ⊆ tr ++ [(s, e)] := List.subset_append_left _ _
    constructor
    · intro q h hq
      have hpre : sent s <+: sent (next cfg me s e) := by
        rw [hsent]
        exact List.prefix_append _ _
      rcases routed_next hq with hold | rfl
      · exact routedBy_mono htr hpre (ihtraffic q h hold)
      · exact ⟨(s, .route q h), by simp, rfl, hpre⟩
    · intro before q h after heq
      change sent (next cfg me s e) = _ at heq
      rw [hsent] at heq
      have hcases : (∃ l, sent s = before ++ .httpRequest q h :: l) ∨
          (sends cfg e = [.httpRequest q h] ∧ before = sent s) := by
        rcases hnew : sends cfg e with _ | ⟨m, _ | ⟨x, rest⟩⟩
        · exact Or.inl ⟨after, by simpa [hnew] using heq⟩
        · rw [hnew] at heq
          rcases split_concat heq with hold | ⟨rfl, rfl⟩
          · exact Or.inl hold
          · exact Or.inr ⟨rfl, rfl⟩
        · cases e <;> simp [sends] at hnew
      rcases hcases with ⟨l, hold⟩ | ⟨hnew, rfl⟩
      · exact routedBy_mono htr (List.prefix_refl _) (ihsent before q h l hold)
      · have hrouted : s.traffic q = .routed h := by
          cases e with
          | sendRequest q' h' =>
            simp only [sends, List.cons.injEq, Message.httpRequest.injEq, and_true] at hnew
            obtain ⟨rfl, rfl⟩ := hnew
            exact he
          | _ => simp [sends] at hnew
        exact routedBy_mono htr (List.prefix_refl _) (ihtraffic q h hrouted)

/-- np gets to the messages that are on their way, one after the other. -/
theorem handle_path (cfg : Config) (me : C) {l rest : List (Message Q)} {s : State C Q}
    (h : s.inFlight = l ++ rest) :
    ∃ tr t, Path (session cfg me) s tr t ∧ t.inFlight = rest ∧ t.handled = s.handled ++ l ∧
      t.registry = s.registry := by
  induction l generalizing s with
  | nil => exact ⟨[], s, .refl, h, by simp, rfl⟩
  | cons m l ih =>
    have he : Enabled me s .handle := by simp [Enabled, h]
    have hstep : Path (session cfg me) s [(s, .handle)] (next cfg me s .handle) := .tail .refl he
    have hflight : (next cfg me s .handle).inFlight = l ++ rest := by simp [next, h]
    obtain ⟨tr, t, hp, hrest, hhandled, hreg⟩ := ih hflight
    refine ⟨_, t, hstep.trans hp, hrest, ?_, ?_⟩
    · simp [hhandled, next, h]
    · simp [hreg, next, h]

/-- np is about to refuse a request for a hostname that the registry has for it. -/
def Refused (me : C) (s : State C Q) : Prop :=
  ∃ q hostname rest, s.inFlight = .httpRequest q hostname :: rest ∧
    s.tables.http hostname = none ∧ hostname ∈ s.registry.hostnames me

theorem overtakes {s : State C Q} {tr : List (State C Q × Event C Q)} {e : Event C Q}
    (hr : Run (session cfg me) tr s) (he : Enabled me s e) (hc : ¬ AfterAnnouncement cfg s e) :
    ∃ tr' t, Path (session cfg me) (next cfg me s e) tr' t ∧
      (¬ InOrder (sent t) ∨ Refused me t) := by
  have hstep : Run (session cfg me) (tr ++ [(s, e)]) (next cfg me s e) := .tail hr he
  cases e with
  | route q h =>
    have hsend : Enabled me (next cfg me s (.route q h)) (.sendRequest q h) := by
      simp [Enabled, next]
    have hone : Path (session cfg me) (next cfg me s (.route q h)) [(_, .sendRequest q h)]
        (next cfg me (next cfg me s (.route q h)) (.sendRequest q h)) := .tail .refl hsend
    have hflight : (next cfg me (next cfg me s (.route q h)) (.sendRequest q h)).inFlight =
        s.inFlight ++ [.httpRequest q h] := by simp [next]
    obtain ⟨tr', t, hp, hrest, hhandled, hreg⟩ := handle_path cfg me hflight
    refine ⟨_, t, hone.trans hp, Or.inr ⟨q, h, [], hrest, ?_, ?_⟩⟩
    · have hstanding := http_handled (remembered_of_run (hstep.trans (hone.trans hp))) h
      have hsent : t.handled = sent s := by simpa [next, sent] using hhandled
      rw [hsent, Bool.eq_false_iff.mpr hc] at hstanding
      simpa using hstanding
    · rw [hreg]
      exact he.2.2
  | accept q port =>
    have hsend : Enabled me (next cfg me s (.accept q port)) (.sendConnect q port) := by
      simp [Enabled, next]
    have hone : Path (session cfg me) (next cfg me s (.accept q port)) [(_, .sendConnect q port)]
        (next cfg me (next cfg me s (.accept q port)) (.sendConnect q port)) := .tail .refl hsend
    refine ⟨_, _, hone, Or.inl ?_⟩
    rw [sent_next _ hsend]
    exact fun horder => hc (inOrder_concat.mp horder).2
  | _ => exact absurd trivial hc

/-- If traffic is only taken for what is announced, every message comes after its
announcement, np refuses no connection, and no request but to a hostname that it has closed
since the request was routed. Otherwise the traffic may come before the announcement. -/
theorem announcement_precedes_traffic (cfg : Config) (me : C)
    (tr : List (State C Q × Event C Q)) (s : State C Q) (hr : Run (session cfg me) tr s) :
    ((∀ p ∈ tr, AfterAnnouncement cfg p.1 p.2) →
      InOrder (sent s) ∧
      (∀ q hostname rest, s.inFlight = .httpRequest q hostname :: rest →
        s.tables.http hostname = none →
          ∃ p ∈ tr, p.2 = .route q hostname ∧ ∃ since, s.handled = sent p.1 ++ since ∧
            ∃ msg, .announce (.httpClosed msg) ∈ since ∧ msg.hostname = hostname) ∧
      (∀ q address rest, s.inFlight = .portConnect q address :: rest →
        ∃ localAddr, portConnect s.tables 0 (some address) = .ok localAddr)) ∧
    (∀ e, Enabled me s e → ¬ AfterAnnouncement cfg s e →
      ∃ tr' t, Path (session cfg me) (next cfg me s e) tr' t ∧
        (¬ InOrder (sent t) ∨ Refused me t)) := by
  refine ⟨?_, fun e he hc => overtakes hr he hc⟩
  intro hc
  have horder := (orderly_of_run hr hc).order
  have hrem := remembered_of_run hr
  refine ⟨horder, ?_, ?_⟩
  · intro q hostname rest hflight hnone
    have hsent : sent s = s.handled ++ .httpRequest q hostname :: rest := by rw [sent, hflight]
    obtain ⟨p, hp, hroute, since, hsince⟩ := (routed_of_run hr).2 _ _ _ _ hsent
    have hstood : standing hostname (sent p.1) = true := by
      have := hc p hp
      rwa [hroute] at this
    have hgone : standing hostname (sent p.1 ++ since) = false := by
      rw [hsince, ← http_handled hrem, hnone]
      rfl
    exact ⟨p, hp, hroute, since, hsince.symm, closed_since hstood hgone⟩
  · intro q address rest hflight
    have hann := horder s.handled _ rest (by rw [sent, hflight])
    obtain ⟨localAddr, hport⟩ := Option.ne_none_iff_exists'.mp (hrem.port address hann)
    exact ⟨localAddr, by simp [portConnect, portOriginFromRaw, PortProtocol.tryFrom, hport]⟩

def polite : List (Event Unit Bool) :=
  [.register, .request (.httpOpen "something" ⟨none, 8000⟩),
    .request (.portOpen ⟨none, 0⟩ ⟨none, 8002⟩), .receive "",
    .claim "something.localhost" ⟨none, 8000⟩, .add "something.localhost" ⟨none, 8000⟩,
    .reply (httpOpened "something.localhost" ⟨none, 8000⟩ none), .receive "",
    .bind ⟨none, 0⟩ ⟨none, 8002⟩ 40000, .registerPort ⟨none, 0⟩ ⟨none, 8002⟩ 40000,
    .reply (portOpened localConfig (.ok 40000) ⟨none, 0⟩ ⟨none, 8002⟩),
    .route false "something.localhost", .accept true 40000, .sendConnect true 40000,
    .sendRequest false "something.localhost"]

theorem announcement_precedes_traffic_polite :
    InOrder (sent (replay (session localConfig ()) initial polite)) := by
  have haccepts : Accepts (session localConfig ()) initial polite := by decide
  have hc : ∀ p ∈ trace (session localConfig ()) initial polite,
      AfterAnnouncement localConfig p.1 p.2 := by decide
  exact ((announcement_precedes_traffic localConfig () _ _ (path_of_accepts haccepts)).1 hc).1

/-- The same tunnels, with traffic as soon as there is somewhere to send it. -/
def hasty : List (Event Unit Bool) :=
  [.register, .request (.httpOpen "something" ⟨none, 8000⟩),
    .request (.portOpen ⟨none, 0⟩ ⟨none, 8002⟩), .receive "",
    .claim "something.localhost" ⟨none, 8000⟩, .add "something.localhost" ⟨none, 8000⟩,
    .route false "something.localhost", .sendRequest false "something.localhost",
    .reply (httpOpened "something.localhost" ⟨none, 8000⟩ none), .receive "",
    .bind ⟨none, 0⟩ ⟨none, 8002⟩ 40000, .accept true 40000, .sendConnect true 40000,
    .registerPort ⟨none, 0⟩ ⟨none, 8002⟩ 40000,
    .reply (portOpened localConfig (.ok 40000) ⟨none, 0⟩ ⟨none, 8002⟩)]

/-- A request and a connection are sent ahead of the announcements, and np refuses both for
tunnels that the server has granted to it. -/
theorem traffic_overtakes :
    ∃ s t : State Unit Bool, Reachable (session localConfig ()) s ∧
      Reachable (session localConfig ()) t ∧ ¬ InOrder (sent s) ∧ ¬ InOrder (sent t) ∧
      Refused () s ∧
      ∃ address rest, t.inFlight = .portConnect true address :: rest ∧ 40000 ∈ t.openPorts ∧
        portConnect t.tables 0 (some address) =
          .error (.portOriginNotRegistered (origin localConfig 40000)) := by
  let s := replay (session localConfig ()) initial hasty
  let t := replay (session localConfig ()) s [.handle, .handle]
  have haccepts : Accepts (session localConfig ()) initial hasty := by decide
  have hrest : Accepts (session localConfig ()) s [.handle, .handle] := by decide
  have hs := path_of_accepts haccepts
  have ht := hs.trans (path_of_accepts hrest)
  have hsent : sent t = sent s := by decide
  have horder : ¬ InOrder (sent s) := by
    intro h
    obtain ⟨m, hm, _⟩ := h [] (.httpRequest false "something.localhost") _ rfl
    simp at hm
  have hlater : ¬ InOrder (sent t) := by rwa [hsent]
  refine ⟨s, t, ⟨_, hs⟩, ⟨_, ht⟩, horder, hlater, ?_, ?_⟩
  · exact ⟨false, "something.localhost", _, rfl, rfl, by decide⟩
  · exact ⟨_, _, rfl, by decide, by decide⟩

end AnnouncementOrder
