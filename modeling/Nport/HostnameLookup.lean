import Nport.Registry

/-! Lookups of a hostname while the registry changes. A lookup holds clients.read() from its
first to its last item and takes the lock of each client only to look at that client, so
names move behind it but clients neither come nor go. -/
namespace HostnameLookup

open GuardedMachine
open Registry (Hostname)

inductive Lookup (C : Type*) where
  | idle
  | called (hostname : Hostname)
  /-- clients.read() is held, these clients are still to be looked at -/
  | scanning (hostname : Hostname) (remaining : List C)
  | returned (result : Option C)
  deriving DecidableEq

def Lookup.isCalled {C : Type*} : Lookup C → Bool
  | .called _ => true
  | _ => false

def Lookup.isScanning {C : Type*} : Lookup C → Bool
  | .scanning _ _ => true
  | _ => false

theorem Lookup.isCalled_iff {C : Type*} {k : Lookup C} :
    k.isCalled = true ↔ ∃ h, k = .called h := by
  cases k <;> simp [Lookup.isCalled]

theorem Lookup.isScanning_iff {C : Type*} {k : Lookup C} :
    k.isScanning = true ↔ ∃ h remaining, k = .scanning h remaining := by
  cases k <;> simp [Lookup.isScanning]

structure State (C L : Type*) where
  registry : Registry.State C
  lookup : L → Lookup C
  /-- the lookups that hold clients.read() -/
  readers : Finset L

variable {C L : Type*} [DecidableEq C] [DecidableEq L]

def initial : State C L := ⟨Registry.initial, fun _ => .idle, ∅⟩

inductive Event (C L : Type*) where
  | registry (e : Registry.Event C)
  | call (l : L) (hostname : Hostname)
  | lock (l : L)
  /-- the next item of the loop, or its end -/
  | inspect (l : L)
  deriving DecidableEq

def WritesClients : Registry.Event C → Prop
  | .register _ | .deregister _ => True
  | _ => False

instance (e : Registry.Event C) : Decidable (WritesClients e) :=
  match e with
  | .register _ | .deregister _ => isTrue trivial
  | .claimHttpHostname _ _ | .addHttpHostname _ _ | .releaseHttpHostname _ _ | .unclaim _ _
  | .lockClaimed _ | .clear _ => isFalse id

def Enabled (s : State C L) : Event C L → Prop
  | .registry e => Registry.Enabled s.registry e ∧ (WritesClients e → s.readers = ∅)
  | .call l _ => s.lookup l = .idle
  | .lock l => (∃ h, s.lookup l = .called h) ∧ s.registry.clientsGuard = none
  | .inspect l => ∃ h remaining, s.lookup l = .scanning h remaining

instance (s : State C L) (e : Event C L) : Decidable (Enabled s e) :=
  match e with
  | .registry _ => inferInstanceAs (Decidable (_ ∧ _))
  | .call _ _ => inferInstanceAs (Decidable (_ = _))
  | .lock _ => decidable_of_iff _ (and_congr_left' Lookup.isCalled_iff)
  | .inspect _ => decidable_of_iff _ Lookup.isScanning_iff

def next (s : State C L) : Event C L → State C L
  | .registry e => { s with registry := Registry.next s.registry e }
  | .call l h => { s with lookup := Function.update s.lookup l (.called h) }
  | .lock l =>
    match s.lookup l with
    | .called h =>
      { s with
        lookup := Function.update s.lookup l (.scanning h s.registry.clients)
        readers := insert l s.readers }
    | _ => s
  | .inspect l =>
    match s.lookup l with
    | .scanning _ [] =>
      { s with
        lookup := Function.update s.lookup l (.returned none)
        readers := s.readers.erase l }
    | .scanning h (c :: rest) =>
      if h ∈ s.registry.hostnames c then
        { s with
          lookup := Function.update s.lookup l (.returned (some c))
          readers := s.readers.erase l }
      else { s with lookup := Function.update s.lookup l (.scanning h rest) }
    | _ => s

def system : Machine (State C L) (Event C L) := ⟨initial, Enabled, next⟩

instance (s : State C L) (e : Event C L) : Decidable (system.Enabled s e) :=
  inferInstanceAs (Decidable (Enabled s e))

def Unheld (h : Hostname) (s : Registry.State C) : Prop := ∀ d ∈ s.clients, h ∉ s.hostnames d

def SoleHolder (h : Hostname) (c : C) (s : Registry.State C) : Prop :=
  c ∈ s.clients ∧ h ∈ s.hostnames c ∧ ∀ d ∈ s.clients, h ∈ s.hostnames d → d = c

structure Invariant (s : State C L) : Prop where
  registry : Registry.Invariant s.registry
  locked : ∀ l h remaining, s.lookup l = .scanning h remaining →
    l ∈ s.readers ∧ remaining ⊆ s.registry.clients

omit [DecidableEq C] in
theorem soleHolder {s : Registry.State C} (hi : Registry.Invariant s) {c : C} {h : Hostname}
    (hc : c ∈ s.clients) (hh : h ∈ s.hostnames c) : SoleHolder h c s := by
  refine ⟨hc, hh, ?_⟩
  intro d hd hdh
  by_contra hne
  exact Finset.disjoint_left.mp (hi.disjoint hd hc hne) hdh hh

theorem clients_kept {s : Registry.State C} {e : Registry.Event C} (hw : ¬ WritesClients e) :
    (Registry.next s e).clients = s.clients := by
  cases e with
  | register => exact absurd trivial hw
  | deregister => exact absurd trivial hw
  | claimHttpHostname c k =>
    simp only [Registry.next]
    split <;> rfl
  | releaseHttpHostname c k =>
    simp only [Registry.next]
    split <;> rfl
  | addHttpHostname => rfl
  | unclaim => rfl
  | lockClaimed => rfl
  | clear => rfl

theorem held_or_unheld {s : Registry.State C} (hi : Registry.Invariant s) {e : Registry.Event C}
    (hw : ¬ WritesClients e) {d : C} {h : Hostname} (hd : d ∈ s.clients)
    (hh : h ∈ s.hostnames d) :
    h ∈ (Registry.next s e).hostnames d ∨ Unheld h (Registry.next s e) := by
  cases e with
  | register => exact absurd trivial hw
  | deregister => exact absurd trivial hw
  | claimHttpHostname c k =>
    simp only [Registry.next]
    split <;> exact Or.inl hh
  | addHttpHostname c k =>
    by_cases hc : d = c
    · subst d; exact Or.inl (by simp [Registry.next, hh])
    · exact Or.inl (by simpa [Registry.next, hc] using hh)
  | releaseHttpHostname c k =>
    by_cases hk : k ∈ s.hostnames c
    · by_cases hc : d = c
      · subst d
        by_cases hhk : h = k
        · refine Or.inr fun b hb => ?_
          subst k
          simp only [Registry.next, if_pos hh] at hb ⊢
          by_cases hbd : b = c
          · subst b; simp
          · have hnot : h ∉ s.hostnames b := fun hbh => hbd ((soleHolder hi hd hh).2.2 b hb hbh)
            simpa [hbd] using hnot
        · exact Or.inl (by simp [Registry.next, hk, hh, hhk])
      · exact Or.inl (by simpa [Registry.next, hk, hc] using hh)
    · exact Or.inl (by simpa [Registry.next, hk] using hh)
  | unclaim => exact Or.inl hh
  | lockClaimed => exact Or.inl hh
  | clear => exact Or.inl hh

omit [DecidableEq C] [DecidableEq L] in
theorem initial_invariant : Invariant (initial : State C L) :=
  ⟨Registry.initial_invariant, by simp [initial]⟩

/-- What a step does to one lookup. -/
inductive Move (s : State C L) (l : L) : Event C L → Lookup C → Prop where
  | other {e} : (∀ h, e = .call l h → False) → e ≠ .lock l → e ≠ .inspect l →
      Move s l e (s.lookup l)
  | call {h} : s.lookup l = .idle → Move s l (.call l h) (.called h)
  | lock {h} : s.lookup l = .called h → Move s l (.lock l) (.scanning h s.registry.clients)
  | finish {h} : s.lookup l = .scanning h [] → Move s l (.inspect l) (.returned none)
  | found {h c rest} : s.lookup l = .scanning h (c :: rest) → h ∈ s.registry.hostnames c →
      Move s l (.inspect l) (.returned (some c))
  | pass {h c rest} : s.lookup l = .scanning h (c :: rest) → h ∉ s.registry.hostnames c →
      Move s l (.inspect l) (.scanning h rest)

theorem next_lookup {s : State C L} {e : Event C L} (he : Enabled s e) (l : L) :
    Move s l e ((next s e).lookup l) := by
  cases e with
  | registry e => exact .other (by simp) (by simp) (by simp)
  | call k h =>
    by_cases hk : l = k
    · subst k
      simpa [next] using Move.call (h := h) he
    · have hsame : (next s (.call k h)).lookup l = s.lookup l := by simp [next, hk]
      rw [hsame]
      exact .other (by rintro _ ⟨⟩; exact hk rfl) (by simp) (by simp)
  | lock k =>
    obtain ⟨⟨h, hl⟩, _⟩ := he
    by_cases hk : l = k
    · subst k
      simpa [next, hl] using Move.lock hl
    · have hsame : (next s (.lock k)).lookup l = s.lookup l := by simp [next, hl, hk]
      rw [hsame]
      exact .other (by simp) (by rintro ⟨⟩; exact hk rfl) (by simp)
  | inspect k =>
    obtain ⟨h, remaining, hl⟩ := he
    by_cases hk : l = k
    · subst k
      cases remaining with
      | nil => simpa [next, hl] using Move.finish hl
      | cons c rest =>
        by_cases hh : h ∈ s.registry.hostnames c
        · simpa [next, hl, hh] using Move.found hl hh
        · simpa [next, hl, hh] using Move.pass hl hh
    · have hsame : (next s (.inspect k)).lookup l = s.lookup l := by
        cases remaining with
        | nil => simp [next, hl, hk]
        | cons c rest => by_cases hh : h ∈ s.registry.hostnames c <;> simp [next, hl, hh, hk]
      rw [hsame]
      exact .other (by simp) (by simp) (by rintro ⟨⟩; exact hk rfl)

theorem next_registry (s : State C L) (e : Event C L) :
    (next s e).registry = s.registry ∨
      ∃ r, e = .registry r ∧ (next s e).registry = Registry.next s.registry r := by
  cases e with
  | registry r => exact Or.inr ⟨r, rfl, rfl⟩
  | call => exact Or.inl rfl
  | lock l =>
    simp only [next]
    split <;> exact Or.inl rfl
  | inspect l =>
    simp only [next]
    split
    · exact Or.inl rfl
    · split <;> exact Or.inl rfl
    · exact Or.inl rfl

theorem clients_while_locked {s : State C L} {e : Event C L} (he : Enabled s e) {l : L}
    (hl : l ∈ s.readers) : (next s e).registry.clients = s.registry.clients := by
  rcases next_registry s e with hsame | ⟨r, rfl, hstep⟩
  · rw [hsame]
  · rw [hstep]
    apply clients_kept
    intro hw
    exact absurd (he.2 hw ▸ hl) (Finset.notMem_empty l)

/-- Only its own last step takes a lookup out of the readers. -/
theorem reader_kept {s : State C L} {e : Event C L} (he : Enabled s e) {l : L}
    (hl : l ∈ s.readers) {h : Hostname} {remaining : List C}
    (hs : (next s e).lookup l = .scanning h remaining) : l ∈ (next s e).readers := by
  cases e with
  | registry => exact hl
  | call => exact hl
  | lock k =>
    obtain ⟨⟨h', hk⟩, _⟩ := he
    simp [next, hk, hl]
  | inspect k =>
    obtain ⟨h', items, hk⟩ := he
    cases items with
    | nil =>
      have hne : l ≠ k := by
        rintro rfl
        simp [next, hk] at hs
      simp [next, hk, hl, hne]
    | cons c rest =>
      by_cases hh : h' ∈ s.registry.hostnames c
      · have hne : l ≠ k := by
          rintro rfl
          simp [next, hk, hh] at hs
        simp [next, hk, hh, hl, hne]
      · simpa [next, hk, hh] using hl

theorem step_preserves_invariant {s : State C L} (hi : Invariant s) {e : Event C L}
    (he : Enabled s e) : Invariant (next s e) := by
  constructor
  · rcases next_registry s e with hsame | ⟨r, rfl, hstep⟩
    · rw [hsame]
      exact hi.registry
    · exact Registry.step_preserves_invariant hi.registry he.1
  · intro l h remaining hl
    have stays {before : List C} (hb : s.lookup l = .scanning h before)
        (hsub : remaining ⊆ before) :
        l ∈ (next s e).readers ∧ remaining ⊆ (next s e).registry.clients := by
      obtain ⟨hread, hclients⟩ := hi.locked l h before hb
      rw [clients_while_locked he hread]
      exact ⟨reader_kept he hread hl, List.Subset.trans hsub hclients⟩
    generalize hm : (next s e).lookup l = after at hl
    cases hm ▸ next_lookup he l with
    | other => exact stays hl (List.Subset.refl _)
    | call => cases hl
    | lock hc =>
      obtain ⟨rfl, rfl⟩ : _ ∧ _ := by simpa using hl
      exact ⟨by simp [next, hc], by simp [next, hc]⟩
    | finish => cases hl
    | found => cases hl
    | pass hc =>
      obtain ⟨rfl, rfl⟩ : _ ∧ _ := by simpa using hl
      exact stays hc (List.subset_cons_self _ _)

theorem reachable_invariant {s : State C L} (h : Reachable system s) : Invariant s :=
  Reachable.invariant (M := system) initial_invariant
    (fun _ _ hi he => step_preserves_invariant hi he) h

/-- The lookup has not passed by the registered client that has the name. -/
def Pending (l : L) (h : Hostname) (s : State C L) : Prop :=
  s.lookup l = .called h ∨
    ∃ remaining, s.lookup l = .scanning h remaining ∧
      ∃ d ∈ remaining, d ∈ s.registry.clients ∧ h ∈ s.registry.hostnames d

def Returned (l : L) (s : State C L) : Prop := ∃ result, s.lookup l = .returned result

theorem held_or_unheld_next {s : State C L} (hi : Invariant s) {e : Event C L}
    (he : Enabled s e) {l : L} (hl : l ∈ s.readers) {d : C} {h : Hostname}
    (hd : d ∈ s.registry.clients) (hh : h ∈ s.registry.hostnames d) :
    (d ∈ (next s e).registry.clients ∧ h ∈ (next s e).registry.hostnames d) ∨
      Unheld h (next s e).registry := by
  have hclients := clients_while_locked he hl
  rcases next_registry s e with hsame | ⟨r, rfl, hstep⟩
  · rw [hsame]
    exact Or.inl ⟨hd, hh⟩
  · have hw : ¬ WritesClients r := fun hw => absurd (he.2 hw ▸ hl) (Finset.notMem_empty l)
    rw [hclients, hstep]
    exact (held_or_unheld hi.registry hw hd hh).imp (fun hh => ⟨hd, hh⟩) id

theorem pending_step {s : State C L} (hi : Invariant s) {e : Event C L} (he : Enabled s e)
    {l : L} {h : Hostname} (hp : Pending l h s) :
    Pending l h (next s e) ∨ Unheld h s.registry ∨ Unheld h (next s e).registry ∨
      Returned l (next s e) := by
  generalize hm : (next s e).lookup l = after
  cases hm ▸ next_lookup he l with
  | other =>
    rcases hp with hcalled | ⟨remaining, hscan, d, hd, hdc, hdh⟩
    · exact Or.inl (Or.inl (hm.trans hcalled))
    · obtain ⟨hread, _⟩ := hi.locked l h remaining hscan
      rcases held_or_unheld_next hi he hread hdc hdh with hheld | hnone
      · exact Or.inl (Or.inr ⟨remaining, hm.trans hscan, d, hd, hheld⟩)
      · exact Or.inr (Or.inr (Or.inl hnone))
  | call hidle =>
    rcases hp with hcalled | ⟨remaining, hscan, _⟩
    · rw [hidle] at hcalled
      cases hcalled
    · rw [hidle] at hscan
      cases hscan
  | @lock h' hcalled' =>
    by_cases hnone : Unheld h s.registry
    · exact Or.inr (Or.inl hnone)
    · obtain ⟨d, hd, hdh⟩ : ∃ d ∈ s.registry.clients, h ∈ s.registry.hostnames d := by
        simpa [Unheld] using hnone
      have hh : h' = h := by
        rcases hp with hcalled | ⟨remaining, hscan, _⟩
        · rw [hcalled'] at hcalled
          exact Lookup.called.inj hcalled
        · rw [hcalled'] at hscan
          cases hscan
      have hreg : (next s (.lock l)).registry = s.registry := by simp [next, hcalled']
      subst h'
      exact Or.inl (Or.inr ⟨_, hm, d, hd, hreg ▸ hd, hreg ▸ hdh⟩)
  | finish => exact Or.inr (Or.inr (Or.inr ⟨_, hm⟩))
  | found => exact Or.inr (Or.inr (Or.inr ⟨_, hm⟩))
  | @pass h' c rest hscan' hnot =>
    rcases hp with hcalled | ⟨remaining, hscan, d, hd, hdc, hdh⟩
    · rw [hscan'] at hcalled
      cases hcalled
    · rw [hscan'] at hscan
      obtain ⟨rfl, rfl⟩ : h' = h ∧ c :: rest = remaining := by simpa using hscan
      have hne : d ≠ c := fun hdc' => hnot (hdc' ▸ hdh)
      have hreg : (next s (.inspect l)).registry = s.registry := by
        simp [next, hscan', hnot]
      have hrest : d ∈ rest := (List.mem_cons.mp hd).resolve_left hne
      exact Or.inl (Or.inr ⟨rest, hm, d, hrest, hreg ▸ hdc, hreg ▸ hdh⟩)

theorem returned_step {s : State C L} {e : Event C L} (he : Enabled s e) {l : L}
    (hr : Returned l s) : Returned l (next s e) := by
  obtain ⟨result, hr⟩ := hr
  generalize hm : (next s e).lookup l = after
  cases hm ▸ next_lookup he l with
  | other => exact ⟨result, hm.trans hr⟩
  | call hl => simp [hr] at hl
  | lock hl => simp [hr] at hl
  | finish hl => simp [hr] at hl
  | found hl => simp [hr] at hl
  | pass hl => simp [hr] at hl

/-- From the call on: some state so far had no holder, or the holder is still ahead. -/
theorem pending_along {s t : State C L} {tr : List (State C L × Event C L)} {l : L}
    {h : Hostname} (hi : Invariant s) (hp : Path system s tr t) (hs : Pending l h s) :
    (∃ u ∈ visited tr t, Unheld h u.registry) ∨ Pending l h t ∨ Returned l t := by
  induction hp with
  | refl => exact Or.inr (Or.inl hs)
  | @tail tr u e hpath he ih =>
    have hu := hpath.invariant (I := Invariant) (fun _ _ hv he => step_preserves_invariant hv he) hi
    have hlast : next u e ∈ visited (tr ++ [(u, e)]) (next u e) := by simp [visited]
    have hbefore : u ∈ visited (tr ++ [(u, e)]) (next u e) := by simp [visited]
    rcases ih with ⟨v, hv, hnone⟩ | hpend | hret
    · refine Or.inl ⟨v, ?_, hnone⟩
      simp only [visited, List.map_append, List.mem_append] at hv ⊢
      exact Or.inl (hv.imp id (by simp))
    · rcases pending_step hu he hpend with hnext | hnone | hnone | hret
      · exact Or.inr (Or.inl hnext)
      · exact Or.inl ⟨u, hbefore, hnone⟩
      · exact Or.inl ⟨_, hlast, hnone⟩
      · exact Or.inr (Or.inr hret)
    · exact Or.inr (Or.inr (returned_step he hret))

def LooksFor (l : L) (h : Hostname) (s : State C L) : Prop :=
  s.lookup l = .called h ∨ (∃ remaining, s.lookup l = .scanning h remaining) ∨ Returned l s

theorem looksFor_step {s : State C L} {e : Event C L} (he : Enabled s e) {l : L} {h : Hostname}
    (hl : LooksFor l h s) : LooksFor l h (next s e) := by
  rcases hl with hl | ⟨remaining, hl⟩ | hl
  · generalize hm : (next s e).lookup l = after
    cases hm ▸ next_lookup he l with
    | other => exact Or.inl (hm.trans hl)
    | call hl' => simp [hl] at hl'
    | lock hl' =>
      obtain rfl := Lookup.called.inj (hl'.symm.trans hl)
      exact Or.inr (Or.inl ⟨_, hm⟩)
    | finish hl' => simp [hl] at hl'
    | found hl' => simp [hl] at hl'
    | pass hl' => simp [hl] at hl'
  · generalize hm : (next s e).lookup l = after
    cases hm ▸ next_lookup he l with
    | other => exact Or.inr (Or.inl ⟨remaining, hm.trans hl⟩)
    | call hl' => simp [hl] at hl'
    | lock hl' => simp [hl] at hl'
    | finish => exact Or.inr (Or.inr ⟨_, hm⟩)
    | found => exact Or.inr (Or.inr ⟨_, hm⟩)
    | pass hl' =>
      obtain ⟨rfl, -⟩ : _ ∧ _ := by simpa using hl'.symm.trans hl
      exact Or.inr (Or.inl ⟨_, hm⟩)
  · exact Or.inr (Or.inr (returned_step he hl))

def Answers (h : Hostname) (result : Option C) (s : Registry.State C) : Prop :=
  match result with
  | some c => SoleHolder h c s
  | none => Unheld h s

/-- A lookup that is called in a reachable state, and that the next step returns from: at some
instant in between, its answer was right. -/
theorem lookup_linearizable {s t : State C L} {tr : List (State C L × Event C L)} {l : L}
    {h : Hostname} {result : Option C} (hs : Reachable system s)
    (hcall : Enabled s (.call l h)) (hp : Path system (next s (.call l h)) tr t)
    (hstep : Enabled t (.inspect l))
    (hr : (next t (.inspect l)).lookup l = .returned result) :
    ∃ u ∈ visited tr t, Answers h result u.registry := by
  have hcalled : (next s (.call l h)).lookup l = .called h := by simp [next]
  have hi := step_preserves_invariant (reachable_invariant hs) hcall
  have ht := hp.invariant (I := Invariant) (fun _ _ hv he => step_preserves_invariant hv he) hi
  have hname := hp.invariant (I := LooksFor l h) (fun _ _ hv he => looksFor_step he hv)
    (Or.inl hcalled)
  have hlast : t ∈ visited tr t := by simp [visited]
  obtain ⟨h', items, hscan⟩ := hstep
  obtain rfl : h' = h := by
    rcases hname with hn | ⟨remaining, hn⟩ | ⟨r, hn⟩
    · simp [hscan] at hn
    · simp only [hscan, Lookup.scanning.injEq] at hn
      exact hn.1
    · simp [hscan] at hn
  cases items with
  | nil =>
    obtain rfl : none = result := by simpa [next, hscan] using hr
    rcases pending_along hi hp (Or.inl hcalled) with hnone | hpend | ⟨r, hret⟩
    · exact hnone
    · simp [Pending, hscan] at hpend
    · simp [hscan] at hret
  | cons c rest =>
    obtain ⟨_, hclients⟩ := ht.locked l h' _ hscan
    by_cases hh : h' ∈ t.registry.hostnames c
    · obtain rfl : some c = result := by simpa [next, hscan, hh] using hr
      exact ⟨t, hlast, soleHolder ht.registry (hclients List.mem_cons_self) hh⟩
    · simp [next, hscan, hh] at hr

/-! A lookup that nothing else interrupts. -/

def getByHttpHostname (s : Registry.State C) (h : Hostname) : Option C :=
  s.clients.find? fun c => decide (h ∈ s.hostnames c)

theorem undisturbed_scan (items : List C) {s : State C L} {l : L} {h : Hostname}
    (hl : s.lookup l = .scanning h items) :
    ∃ tr t, Path system s tr t ∧ t.registry = s.registry ∧
      t.lookup l = .returned (items.find? fun c => decide (h ∈ s.registry.hostnames c)) := by
  induction items generalizing s with
  | nil =>
    have he : Enabled s (.inspect l) := ⟨h, [], hl⟩
    have hlast : Path system s [(s, .inspect l)] (next s (.inspect l)) := .tail .refl he
    exact ⟨_, _, hlast, by simp [next, hl], by simp [next, hl]⟩
  | cons c rest ih =>
    have he : Enabled s (.inspect l) := ⟨h, c :: rest, hl⟩
    have hfirst : Path system s [(s, .inspect l)] (next s (.inspect l)) := .tail .refl he
    by_cases hh : h ∈ s.registry.hostnames c
    · exact ⟨_, _, hfirst, by simp [next, hl, hh], by simp [next, hl, hh]⟩
    · have hreg : (next s (.inspect l)).registry = s.registry := by simp [next, hl, hh]
      have hscan : (next s (.inspect l)).lookup l = .scanning h rest := by
        simp [next, hl, hh]
      obtain ⟨tr, t, hp, hsame, hret⟩ := ih hscan
      refine ⟨_, t, hfirst.trans hp, hsame.trans hreg, ?_⟩
      rw [hret, hreg]
      simp [hh]

theorem undisturbed_lookup {s : State C L} {l : L} {h : Hostname} (hl : s.lookup l = .called h)
    (hg : s.registry.clientsGuard = none) :
    ∃ tr t, Path system s tr t ∧ t.registry = s.registry ∧
      t.lookup l = .returned (getByHttpHostname s.registry h) := by
  have he : Enabled s (.lock l) := ⟨⟨h, hl⟩, hg⟩
  have hreg : (next s (.lock l)).registry = s.registry := by simp [next, hl]
  have hscan : (next s (.lock l)).lookup l = .scanning h s.registry.clients := by
    simp [next, hl]
  obtain ⟨tr, t, hp, hsame, hret⟩ := undisturbed_scan s.registry.clients hscan
  have hfirst : Path system s [(s, .lock l)] (next s (.lock l)) := .tail .refl he
  refine ⟨_, t, hfirst.trans hp, hsame.trans hreg, ?_⟩
  rw [hret, hreg]
  rfl

omit [DecidableEq C] in
theorem getByHttpHostname_eq_some_iff {s : Registry.State C} (hi : Registry.Invariant s)
    {h : Hostname} {c : C} :
    getByHttpHostname s h = some c ↔ c ∈ s.clients ∧ h ∈ s.hostnames c := by
  constructor
  · intro hf
    exact ⟨List.mem_of_find?_eq_some hf, by simpa using List.find?_some hf⟩
  · rintro ⟨hc, hh⟩
    cases hf : getByHttpHostname s h with
    | none =>
      have hnone := List.find?_eq_none.mp hf c hc
      simp [hh] at hnone
    | some d =>
      have hd : d ∈ s.clients := List.mem_of_find?_eq_some hf
      have hdh : h ∈ s.hostnames d := by simpa using List.find?_some hf
      rw [(soleHolder hi hc hh).2.2 d hd hdh]

def claimed : List (Event Bool Unit) :=
  [.registry (.register false), .registry (.register true),
    .registry (.claimHttpHostname true "something.localhost"),
    .registry (.addHttpHostname true "something.localhost")]

def movedBehind : List (Event Bool Unit) :=
  [.lock (), .inspect (), .registry (.releaseHttpHostname true "something.localhost"),
    .registry (.unclaim true "something.localhost"),
    .registry (.claimHttpHostname false "something.localhost"),
    .registry (.addHttpHostname false "something.localhost"), .inspect ()]

theorem lookup_linearizable_moved : ∃ u ∈ visited
    (trace system (next (replay system initial claimed) (.call () "something.localhost"))
      movedBehind)
    (replay system (next (replay system initial claimed) (.call () "something.localhost"))
      movedBehind), Answers "something.localhost" none u.registry := by
  have before : Accepts system initial claimed := by decide
  have after : Accepts system
      (next (replay system initial claimed) (.call () "something.localhost")) movedBehind := by
    decide
  exact lookup_linearizable (l := ()) (reachable_of_accepts before) (by decide)
    (path_of_accepts after) (by decide) (by decide)

end HostnameLookup
