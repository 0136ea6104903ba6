import Nport.GuardedMachine
import Nport.ExclusiveHolding
import Mathlib.Logic.Function.Basic
import Mathlib.Data.List.Perm.Basic
import Mathlib.Data.List.Nodup

/-! The client registry and its two records of who owns which HTTP hostname.
One event is one critical section: what a task does between taking a lock and giving
it back. deregister keeps its guards across awaits, so the guards are part of the state.
A client's own operations run one after another in its handle_socket task. -/
namespace Registry

open GuardedMachine
open ExclusiveHolding

abbrev Hostname := String

/-- Where the handle_socket task of a client stands in its current operation. -/
inductive Task where
  | unborn
  | idle
  /-- claimed_http_hostnames has the name, Client::add_http_hostname is still to come -/
  | claiming (hostname : Hostname)
  /-- the client's set lost the name, claimed_http_hostnames still has it -/
  | releasing (hostname : Hostname)
  /-- out of clients, waiting for claimed_http_hostnames.write() -/
  | deregistering
  /-- both guards held, the names are not removed yet -/
  | clearing
  | gone
  deriving DecidableEq, Repr

structure State (C : Type*) where
  claimedHttpHostnames : Finset Hostname
  clients : List C
  hostnames : C → Finset Hostname
  task : C → Task
  /-- holder of clients.write() across an await -/
  clientsGuard : Option C
  /-- holder of claimed_http_hostnames.write() across an await -/
  claimedGuard : Option C

variable {C : Type*} [DecidableEq C]

def initial : State C := ⟨∅, [], fun _ => ∅, fun _ => .unborn, none, none⟩

/-- Vec::swap_remove: the last element takes the place of the removed one. -/
def swapRemove {α : Type*} (l : List α) (index : ℕ) : List α :=
  match l.getLast? with
  | none => []
  | some last => (l.set index last).dropLast

inductive Event (C : Type*) where
  | register (c : C)
  | claimHttpHostname (c : C) (hostname : Hostname)
  | addHttpHostname (c : C) (hostname : Hostname)
  | releaseHttpHostname (c : C) (hostname : Hostname)
  | unclaim (c : C) (hostname : Hostname)
  | deregister (c : C)
  | lockClaimed (c : C)
  | clear (c : C)
  deriving DecidableEq, Repr

def Enabled (s : State C) : Event C → Prop
  | .register c => s.task c = .unborn ∧ s.clientsGuard = none
  | .claimHttpHostname c _ => s.task c = .idle ∧ s.claimedGuard = none
  | .addHttpHostname c h => s.task c = .claiming h
  | .releaseHttpHostname c _ => s.task c = .idle
  | .unclaim c h => s.task c = .releasing h ∧ s.claimedGuard = none
  | .deregister c => s.task c = .idle ∧ s.clientsGuard = none
  | .lockClaimed c => s.task c = .deregistering ∧ s.claimedGuard = none
  | .clear c => s.task c = .clearing

instance (s : State C) (e : Event C) : Decidable (Enabled s e) := by
  cases e <;> simp only [Enabled] <;> infer_instance

def next (s : State C) : Event C → State C
  | .register c =>
    { s with clients := s.clients ++ [c], task := Function.update s.task c .idle }
  | .claimHttpHostname c h =>
    if h ∈ s.claimedHttpHostnames then s
    else { s with
      claimedHttpHostnames := insert h s.claimedHttpHostnames
      task := Function.update s.task c (.claiming h) }
  | .addHttpHostname c h =>
    { s with
      hostnames := Function.update s.hostnames c (insert h (s.hostnames c))
      task := Function.update s.task c .idle }
  | .releaseHttpHostname c h =>
    if h ∈ s.hostnames c then
      { s with
        hostnames := Function.update s.hostnames c ((s.hostnames c).erase h)
        task := Function.update s.task c (.releasing h) }
    else s
  | .unclaim c h =>
    { s with
      claimedHttpHostnames := s.claimedHttpHostnames.erase h
      task := Function.update s.task c .idle }
  | .deregister c =>
    match s.clients.idxOf? c with
    | some index =>
      { s with
        clients := swapRemove s.clients index
        task := Function.update s.task c .deregistering
        clientsGuard := some c }
    | none => { s with task := Function.update s.task c .gone }
  | .lockClaimed c =>
    { s with task := Function.update s.task c .clearing, claimedGuard := some c }
  | .clear c =>
    { s with
      claimedHttpHostnames := s.claimedHttpHostnames \ s.hostnames c
      task := Function.update s.task c .gone
      clientsGuard := none
      claimedGuard := none }

def registry : Machine (State C) (Event C) := ⟨initial, Enabled, next⟩

instance (s : State C) (e : Event C) : Decidable (registry.Enabled s e) :=
  inferInstanceAs (Decidable (Enabled s e))

/-! The answers of claim_http_hostname and release_http_hostname are decided by
their first critical section. -/

def claimResult (s : State C) (h : Hostname) : Bool := decide (h ∉ s.claimedHttpHostnames)

def releaseResult (s : State C) (c : C) (h : Hostname) : Bool := decide (h ∈ s.hostnames c)

def wins (h : Hostname) (p : State C × Event C) : Bool :=
  match p.2 with
  | .claimHttpHostname _ k => k == h && claimResult p.1 h
  | _ => false

/-- What a client answers for: its own set, and the name of a half-done operation. -/
def holding (t : Task) (own : Finset Hostname) : Finset Hostname :=
  match t with
  | .unborn | .gone => ∅
  | .claiming h | .releasing h => insert h own
  | .idle | .deregistering | .clearing => own

def holds (s : State C) (c : C) : Finset Hostname := holding (s.task c) (s.hostnames c)

def Registered : Task → Prop
  | .idle | .claiming _ | .releasing _ => True
  | _ => False

structure Invariant (s : State C) : Prop where
  split : Split s.claimedHttpHostnames (holds s)
  members : ∀ c, c ∈ s.clients ↔ Registered (s.task c)
  nodup : s.clients.Nodup
  unborn : ∀ c, s.task c = .unborn → s.hostnames c = ∅
  released : ∀ c h, s.task c = .releasing h → h ∉ s.hostnames c

theorem swapRemove_perm {α : Type*} (before : List α) (x : α) (after : List α) :
    (swapRemove (before ++ x :: after) before.length).Perm (before ++ after) := by
  rcases List.eq_nil_or_concat after with rfl | ⟨middle, last, rfl⟩
  · simp [swapRemove]
  · have hl : (before ++ x :: middle.concat last).getLast? = some last := by
      rw [List.concat_eq_append, ← List.cons_append, ← List.append_assoc, List.getLast?_concat]
    have hs : (before ++ x :: middle.concat last).set before.length last =
        (before ++ last :: middle) ++ [last] := by simp
    rw [swapRemove, hl]
    simp only [hs, List.dropLast_concat]
    apply (List.perm_append_left_iff before).mpr
    simpa using (List.perm_append_singleton last middle).symm

omit [DecidableEq C] in
theorem initial_invariant : Invariant (initial : State C) := by
  constructor
  · exact Split.empty
  · simp [initial, Registered]
  · exact List.nodup_nil
  · simp [initial]
  · simp [initial]

theorem swapRemove_idxOf {l : List C} (hn : l.Nodup) {c : C} {i : ℕ} (hi : l.idxOf? c = some i) :
    (swapRemove l i).Nodup ∧ ∀ d, d ∈ swapRemove l i ↔ d ∈ l ∧ d ≠ c := by
  obtain ⟨hlt, hc, _⟩ := List.idxOf?_eq_some_iff.mp hi
  have hlen : (l.take i).length = i := by simp; omega
  have hcut : l = l.take i ++ c :: l.drop (i + 1) := by
    rw [← hc, ← List.drop_eq_getElem_cons, List.take_append_drop]
  generalize l.take i = before at hlen hcut
  generalize l.drop (i + 1) = after at hcut
  subst hlen
  subst hcut
  have hp := swapRemove_perm before c after
  have hperm : (before ++ c :: after).Perm (c :: (before ++ after)) := List.perm_middle
  have hn' := List.nodup_cons.mp (hperm.nodup_iff.mp hn)
  refine ⟨hp.nodup_iff.mpr hn'.2, ?_⟩
  intro d
  rw [hp.mem_iff, hperm.mem_iff, List.mem_cons]
  constructor
  · intro hd
    exact ⟨Or.inr hd, fun he => hn'.1 (he ▸ hd)⟩
  · rintro ⟨rfl | hd, hne⟩
    · exact absurd rfl hne
    · exact hd

omit [DecidableEq C] in
theorem holds_other {s t : State C} {c : C}
    (ht : ∀ d, d ≠ c → t.task d = s.task d) (hh : ∀ d, d ≠ c → t.hostnames d = s.hostnames d) :
    ∀ d, d ≠ c → holds t d = holds s d := by
  intro d hd
  rw [holds, holds, ht d hd, hh d hd]

theorem step_split {s : State C} (h : Invariant s) {e : Event C} (he : Enabled s e) :
    Split (next s e).claimedHttpHostnames (holds (next s e)) := by
  cases e with
  | register c =>
    refine h.split.unchanged fun d => ?_
    by_cases hd : d = c
    · subst d
      simp [holds, holding, next, he.1, h.unborn c he.1]
    · simp [holds, next, hd]
  | claimHttpHostname c k =>
    by_cases hk : k ∈ s.claimedHttpHostnames
    · simpa only [next, if_pos hk] using h.split
    · simp only [next, if_neg hk]
      refine h.split.take (a := c) hk ?_ (holds_other (c := c) ?_ ?_)
      · simp [holds, holding, he.1]
      · intro d hd; simp [hd]
      · intro d _; rfl
  | addHttpHostname c k =>
    have hc : s.task c = .claiming k := he
    refine h.split.unchanged fun d => ?_
    by_cases hd : d = c
    · subst d; simp [holds, holding, next, hc]
    · simp [holds, next, hd]
  | releaseHttpHostname c k =>
    have hc : s.task c = .idle := he
    by_cases hk : k ∈ s.hostnames c
    · simp only [next, if_pos hk]
      refine h.split.unchanged fun d => ?_
      by_cases hd : d = c
      · subst d; simp [holds, holding, hc, Finset.insert_erase hk]
      · simp [holds, hd]
    · simpa only [next, if_neg hk] using h.split
  | unclaim c k =>
    have hk : k ∉ s.hostnames c := h.released c k he.1
    simp only [next, ← Finset.sdiff_singleton_eq_erase]
    refine h.split.give (a := c) ?_ ?_ (holds_other (c := c) ?_ ?_)
    · simp [holds, holding, he.1]
    · simp [holds, holding, he.1, Finset.sdiff_singleton_eq_erase,
        Finset.erase_eq_of_notMem hk]
    · intro d hd; simp [hd]
    · intro d _; rfl
  | deregister c =>
    simp only [next]
    cases hi : s.clients.idxOf? c with
    | some i =>
      refine h.split.unchanged fun d => ?_
      by_cases hd : d = c
      · subst d; simp [holds, holding, he.1]
      · simp [holds, hd]
    | none =>
      have hm : c ∈ s.clients := (h.members c).mpr (by rw [he.1]; trivial)
      exact absurd hm (List.idxOf?_eq_none_iff.mp hi)
  | lockClaimed c =>
    refine h.split.unchanged fun d => ?_
    by_cases hd : d = c
    · subst d; simp [holds, holding, next, he.1]
    · simp [holds, next, hd]
  | clear c =>
    have hc : s.task c = .clearing := he
    simp only [next]
    refine h.split.give (a := c) ?_ ?_ (holds_other (c := c) ?_ ?_)
    · simp [holds, holding, hc]
    · simp [holds, holding, hc]
    · intro d hd; simp [hd]
    · intro d _; rfl

omit [DecidableEq C] in
/-- A step of client c keeps the invariant when it keeps it at c. -/
theorem Invariant.move {s t : State C} (h : Invariant s) (c : C)
    (split : Split t.claimedHttpHostnames (holds t)) (nodup : t.clients.Nodup)
    (here : c ∈ t.clients ↔ Registered (t.task c))
    (others : ∀ d, d ≠ c → (d ∈ t.clients ↔ d ∈ s.clients))
    (task : ∀ d, d ≠ c → t.task d = s.task d)
    (names : ∀ d, d ≠ c → t.hostnames d = s.hostnames d)
    (born : t.task c ≠ .unborn)
    (released : ∀ k, t.task c = .releasing k → k ∉ t.hostnames c) : Invariant t := by
  refine ⟨split, ?_, nodup, ?_, ?_⟩
  · intro d
    by_cases hd : d = c
    · rwa [hd]
    · rw [others d hd, task d hd]
      exact h.members d
  · intro d ht
    by_cases hd : d = c
    · exact absurd (hd ▸ ht) born
    · rw [names d hd]
      exact h.unborn d (task d hd ▸ ht)
  · intro d k ht
    by_cases hd : d = c
    · rw [hd] at ht ⊢
      exact released k ht
    · rw [names d hd]
      exact h.released d k (task d hd ▸ ht)

omit [DecidableEq C] in
theorem Invariant.registered {s : State C} (h : Invariant s) {c : C} {t : Task}
    (hc : s.task c = t) (ht : Registered t) : c ∈ s.clients :=
  (h.members c).mpr (hc ▸ ht)

omit [DecidableEq C] in
theorem Invariant.unregistered {s : State C} (h : Invariant s) {c : C} {t : Task}
    (hc : s.task c = t) (ht : ¬ Registered t) : c ∉ s.clients :=
  fun hm => ht (hc ▸ (h.members c).mp hm)

theorem step_preserves_invariant {s : State C} (h : Invariant s) {e : Event C}
    (he : Enabled s e) : Invariant (next s e) := by
  have hs := step_split h he
  cases e with
  | register c =>
    have hc : c ∉ s.clients := h.unregistered he.1 id
    refine h.move c hs ?_ (by simp [next, Registered]) ?_ ?_ ?_ (by simp [next]) (by simp [next])
    · refine List.nodup_append.mpr ⟨h.nodup, by simp, ?_⟩
      intro a ha b hb
      rintro rfl
      exact hc (List.mem_singleton.mp hb ▸ ha)
    · intro d hd; simp [next, hd]
    · intro d hd; simp [next, hd]
    · intro d _; rfl
  | claimHttpHostname c k =>
    by_cases hk : k ∈ s.claimedHttpHostnames
    · simpa only [next, if_pos hk] using h
    · simp only [next, if_neg hk] at hs ⊢
      have hc : c ∈ s.clients := h.registered he.1 trivial
      refine h.move c hs h.nodup (by simp [Registered, hc]) ?_ ?_ ?_ (by simp) (by simp)
      · intro d _; rfl
      · intro d hd; simp [hd]
      · intro d _; rfl
  | addHttpHostname c k =>
    have hc : c ∈ s.clients := h.registered he trivial
    refine h.move c hs h.nodup (by simp [next, Registered, hc]) ?_ ?_ ?_ (by simp [next])
      (by simp [next])
    · intro d _; rfl
    · intro d hd; simp [next, hd]
    · intro d hd; simp [next, hd]
  | releaseHttpHostname c k =>
    by_cases hk : k ∈ s.hostnames c
    · simp only [next, if_pos hk] at hs ⊢
      have hc : c ∈ s.clients := h.registered he trivial
      refine h.move c hs h.nodup (by simp [Registered, hc]) ?_ ?_ ?_ (by simp) (by simp)
      · intro d _; rfl
      · intro d hd; simp [hd]
      · intro d hd; simp [hd]
    · simpa only [next, if_neg hk] using h
  | unclaim c k =>
    have hc : c ∈ s.clients := h.registered he.1 trivial
    refine h.move c hs h.nodup (by simp [next, Registered, hc]) ?_ ?_ ?_ (by simp [next])
      (by simp [next])
    · intro d _; rfl
    · intro d hd; simp [next, hd]
    · intro d _; rfl
  | deregister c =>
    have hc : c ∈ s.clients := h.registered he.1 trivial
    cases hi : s.clients.idxOf? c with
    | none => exact absurd hc (List.idxOf?_eq_none_iff.mp hi)
    | some i =>
      obtain ⟨hn, hmem⟩ := swapRemove_idxOf h.nodup hi
      simp only [next, hi] at hs ⊢
      refine h.move c hs hn (by simp [hmem, Registered]) ?_ ?_ ?_ (by simp) (by simp)
      · intro d hd; simp [hmem, hd]
      · intro d hd; simp [hd]
      · intro d _; rfl
  | lockClaimed c =>
    have hc : c ∉ s.clients := h.unregistered he.1 id
    refine h.move c hs h.nodup (by simp [next, Registered, hc]) ?_ ?_ ?_ (by simp [next])
      (by simp [next])
    · intro d _; rfl
    · intro d hd; simp [next, hd]
    · intro d _; rfl
  | clear c =>
    have hc : c ∉ s.clients := h.unregistered he id
    refine h.move c hs h.nodup (by simp [next, Registered, hc]) ?_ ?_ ?_ (by simp [next])
      (by simp [next])
    · intro d _; rfl
    · intro d hd; simp [next, hd]
    · intro d _; rfl

theorem reachable_invariant {s : State C} (h : Reachable registry s) : Invariant s :=
  Reachable.invariant (M := registry) initial_invariant
    (fun _ _ hi he => step_preserves_invariant hi he) h

/-! A step of one client leaves the others as they are. -/

def Event.client : Event C → C
  | .register c | .claimHttpHostname c _ | .addHttpHostname c _ | .releaseHttpHostname c _
  | .unclaim c _ | .deregister c | .lockClaimed c | .clear c => c

theorem next_other (s : State C) {e : Event C} {d : C} (hd : d ≠ e.client) :
    (next s e).task d = s.task d ∧ (next s e).hostnames d = s.hostnames d := by
  cases e with
  | register c => exact ⟨Function.update_of_ne hd _ _, rfl⟩
  | claimHttpHostname c k =>
    by_cases hk : k ∈ s.claimedHttpHostnames
    · simp [next, hk]
    · simp only [next, if_neg hk]
      exact ⟨Function.update_of_ne hd _ _, trivial⟩
  | addHttpHostname c k => exact ⟨Function.update_of_ne hd _ _, Function.update_of_ne hd _ _⟩
  | releaseHttpHostname c k =>
    by_cases hk : k ∈ s.hostnames c
    · simp only [next, if_pos hk]
      exact ⟨Function.update_of_ne hd _ _, Function.update_of_ne hd _ _⟩
    · simp [next, hk]
  | unclaim c k => exact ⟨Function.update_of_ne hd _ _, rfl⟩
  | deregister c =>
    cases hi : s.clients.idxOf? c with
    | some i =>
      simp only [next, hi]
      exact ⟨Function.update_of_ne hd _ _, trivial⟩
    | none =>
      simp only [next, hi]
      exact ⟨Function.update_of_ne hd _ _, trivial⟩
  | lockClaimed c => exact ⟨Function.update_of_ne hd _ _, rfl⟩
  | clear c => exact ⟨Function.update_of_ne hd _ _, rfl⟩

/-! Competing claims of one name. -/

def FreedBy (c : C) (h : Hostname) : Event C → Prop
  | .unclaim d k => d = c ∧ k = h
  | .clear d => d = c
  | _ => False

theorem unclaimed_by_holder {s : State C} {e : Event C} (he : Enabled s e)
    {h : Hostname} (hc : h ∈ s.claimedHttpHostnames)
    (hn : h ∉ (next s e).claimedHttpHostnames) : ∃ c, h ∈ holds s c ∧ FreedBy c h e := by
  cases e with
  | register => exact absurd hc hn
  | claimHttpHostname c k =>
    by_cases hk : k ∈ s.claimedHttpHostnames
    · simp only [next, if_pos hk] at hn
      exact absurd hc hn
    · simp only [next, if_neg hk] at hn
      exact absurd (Finset.mem_insert_of_mem hc) hn
  | addHttpHostname => exact absurd hc hn
  | releaseHttpHostname c k =>
    by_cases hk : k ∈ s.hostnames c <;> simp [next, hk, hc] at hn
  | unclaim c k =>
    obtain rfl : h = k := by
      by_contra hne
      exact hn (Finset.mem_erase.mpr ⟨hne, hc⟩)
    exact ⟨c, by simp [holds, holding, he.1], rfl, rfl⟩
  | deregister c => cases hi : s.clients.idxOf? c <;> simp [next, hi, hc] at hn
  | lockClaimed => exact absurd hc hn
  | clear c =>
    have ht : s.task c = .clearing := he
    have hm : h ∈ s.hostnames c := by
      by_contra hm
      exact hn (Finset.mem_sdiff.mpr ⟨hc, hm⟩)
    exact ⟨c, by simpa [holds, holding, ht] using hm, rfl⟩

/-- A holder keeps a name through every event but its own release and deregistration. -/
theorem holder_kept {s : State C} (hi : Invariant s) {e : Event C} (he : Enabled s e)
    {c : C} {h : Hostname} (hc : h ∈ holds s c) (hf : ¬ FreedBy c h e) :
    h ∈ holds (next s e) c := by
  cases e with
  | register d =>
    have hne : c ≠ d := by
      rintro rfl
      simp [holds, holding, he.1] at hc
    simpa [holds, next, hne] using hc
  | claimHttpHostname d k =>
    by_cases hk : k ∈ s.claimedHttpHostnames
    · simpa only [next, if_pos hk] using hc
    · simp only [next, if_neg hk]
      by_cases hd : c = d
      · subst d
        have hm : h ∈ s.hostnames c := by simpa [holds, holding, he.1] using hc
        simp [holds, holding, hm]
      · simpa [holds, hd] using hc
  | addHttpHostname d k =>
    have ht : s.task d = .claiming k := he
    by_cases hd : c = d
    · subst d; simpa [holds, holding, next, ht] using hc
    · simpa [holds, next, hd] using hc
  | releaseHttpHostname d k =>
    have ht : s.task d = .idle := he
    by_cases hk : k ∈ s.hostnames d
    · simp only [next, if_pos hk]
      by_cases hd : c = d
      · subst d; simpa [holds, holding, ht, Finset.insert_erase hk] using hc
      · simpa [holds, hd] using hc
    · simpa only [next, if_neg hk] using hc
  | unclaim d k =>
    by_cases hd : c = d
    · subst d
      have hne : h ≠ k := fun hk => hf ⟨rfl, hk.symm⟩
      simpa [holds, holding, next, he.1, hne] using hc
    · simpa [holds, next, hd] using hc
  | deregister d =>
    cases hx : s.clients.idxOf? d with
    | none => exact absurd (hi.registered he.1 trivial) (List.idxOf?_eq_none_iff.mp hx)
    | some i =>
      by_cases hd : c = d
      · subst d; simpa [holds, holding, next, hx, he.1] using hc
      · simpa [holds, next, hx, hd] using hc
  | lockClaimed d =>
    by_cases hd : c = d
    · subst d; simpa [holds, holding, next, he.1] using hc
    · simpa [holds, next, hd] using hc
  | clear d =>
    have hd : c ≠ d := fun hd => hf hd.symm
    simpa [holds, next, hd] using hc

theorem holder_refuses {s t : State C} {tr : List (State C × Event C)} {c : C} {h : Hostname}
    (hs : Invariant s) (hp : Path registry s tr t) (hc : h ∈ holds s c)
    (hf : ∀ p ∈ tr, ¬ FreedBy c h p.2) : h ∈ holds t c ∧ tr.countP (wins h) = 0 := by
  have both : ∀ u e, (Invariant u ∧ h ∈ holds u c) → Enabled u e → ¬ FreedBy c h e →
      Invariant (next u e) ∧ h ∈ holds (next u e) c :=
    fun u e hu he hn => ⟨step_preserves_invariant hu.1 he, holder_kept hu.1 he hu.2 hn⟩
  refine ⟨(Path.invariant_where (M := registry) both hp ⟨hs, hc⟩ hf).2, ?_⟩
  rw [List.countP_eq_zero]
  intro p hm hw
  obtain ⟨_, before, hb, hpath⟩ := hp.step_mem p hm
  have hu := Path.invariant_where (M := registry) both hpath ⟨hs, hc⟩
    fun q hq => hf q (hb.sublist.subset hq)
  have hmem : h ∈ p.1.claimedHttpHostnames := hu.1.split.subset c hu.2
  cases he : p.2 <;> simp [wins, he, claimResult, hmem] at hw

theorem wins_claims (h : Hostname) (p : State C × Event C) (hw : wins h p) :
    h ∉ p.1.claimedHttpHostnames ∧ h ∈ (next p.1 p.2).claimedHttpHostnames := by
  obtain ⟨u, e⟩ := p
  cases e <;> simp only [wins, Bool.false_eq_true, Bool.and_eq_true, beq_iff_eq, claimResult,
    decide_eq_true_eq] at hw
  obtain ⟨rfl, hn⟩ := hw
  simp [next, hn]

theorem only_wins_claim (h : Hostname) (p : State C × Event C) (hw : ¬ wins h p)
    (hn : h ∈ (next p.1 p.2).claimedHttpHostnames) : h ∈ p.1.claimedHttpHostnames := by
  obtain ⟨u, e⟩ := p
  cases e with
  | claimHttpHostname c k =>
    by_contra hm
    by_cases hk : k ∈ u.claimedHttpHostnames
    · simp only [next, if_pos hk] at hn
      exact hm hn
    · simp only [next, if_neg hk] at hn
      rcases Finset.mem_insert.mp hn with rfl | hn
      · exact hw (by simp [wins, claimResult, hk])
      · exact hm hn
  | releaseHttpHostname c k =>
    by_cases hk : k ∈ u.hostnames c <;> simpa [next, hk] using hn
  | unclaim c k => exact Finset.mem_of_mem_erase hn
  | deregister c => cases hi : u.clients.idxOf? c <;> simpa [next, hi] using hn
  | clear c => exact (Finset.mem_sdiff.mp hn).1
  | register => exact hn
  | addHttpHostname => exact hn
  | lockClaimed => exact hn

theorem claimed_after_claim {s t : State C} {tr : List (State C × Event C)} {h : Hostname}
    (hp : Path registry s tr t)
    (kept : ∀ p ∈ tr, h ∈ p.1.claimedHttpHostnames → h ∈ (next p.1 p.2).claimedHttpHostnames)
    (hc : ∃ p ∈ tr, ∃ c, p.2 = .claimHttpHostname c h) : h ∈ t.claimedHttpHostnames := by
  induction hp with
  | refl => obtain ⟨p, hp, _⟩ := hc; cases hp
  | @tail tr u e _ he ih =>
    obtain ⟨p, hm, c, hpe⟩ := hc
    rcases List.mem_append.mp hm with hm | hm
    · exact kept (u, e) (by simp)
        (ih (fun q hq => kept q (List.mem_append_left _ hq)) ⟨p, hm, c, hpe⟩)
    · obtain rfl : p = (u, e) := by simpa using hm
      change e = _ at hpe
      subst hpe
      by_cases hk : h ∈ u.claimedHttpHostnames
      · exact kept (u, _) (by simp) hk
      · simp [registry, next, hk]

theorem one_claim_wins {s t : State C} {tr : List (State C × Event C)} {h : Hostname}
    (hp : Path registry s tr t) (free : h ∉ s.claimedHttpHostnames)
    (kept : ∀ p ∈ tr, h ∈ p.1.claimedHttpHostnames → h ∈ (next p.1 p.2).claimedHttpHostnames)
    (hc : ∃ p ∈ tr, ∃ c, p.2 = .claimHttpHostname c h) : tr.countP (wins h) = 1 := by
  have hmost := (Path.fires_at_most_once (M := registry)
    (L := fun u => h ∈ u.claimedHttpHostnames) hp (fun p _ _ hw => wins_claims h p hw) kept).1
  have hleast := Path.fires_of_closed (M := registry)
    (L := fun u => h ∈ u.claimedHttpHostnames) (fun p _ hw => only_wins_claim h p hw) hp free
    (claimed_after_claim hp kept hc)
  omega

def InProgress (s : State C) (h : Hostname) : Prop :=
  ∃ c, s.task c = .claiming h ∨ s.task c = .releasing h ∨
    ((s.task c = .deregistering ∨ s.task c = .clearing) ∧ h ∈ s.hostnames c)

def Quiet (s : State C) : Prop := ∀ c, s.task c = .unborn ∨ s.task c = .idle ∨ s.task c = .gone

omit [DecidableEq C] in
theorem own_subset_holds {s : State C} {c : C} (hr : Registered (s.task c)) :
    s.hostnames c ⊆ holds s c := by
  intro h hh
  cases ht : s.task c <;> simp_all [holds, holding, Registered]

omit [DecidableEq C] in
theorem holds_cases {s : State C} {c : C} {h : Hostname} (hh : h ∈ holds s c) :
    (Registered (s.task c) ∧ h ∈ s.hostnames c) ∨ InProgress s h := by
  cases ht : s.task c with
  | unborn => simp [holds, holding, ht] at hh
  | gone => simp [holds, holding, ht] at hh
  | idle => exact Or.inl ⟨trivial, by simpa [holds, holding, ht] using hh⟩
  | claiming k =>
    have hk : h = k ∨ h ∈ s.hostnames c := by simpa [holds, holding, ht] using hh
    exact hk.elim (fun hk => Or.inr ⟨c, Or.inl (hk ▸ ht)⟩) fun hk => Or.inl ⟨trivial, hk⟩
  | releasing k =>
    have hk : h = k ∨ h ∈ s.hostnames c := by simpa [holds, holding, ht] using hh
    exact hk.elim (fun hk => Or.inr ⟨c, Or.inr (Or.inl (hk ▸ ht))⟩) fun hk => Or.inl ⟨trivial, hk⟩
  | deregistering =>
    exact Or.inr ⟨c, Or.inr (Or.inr ⟨Or.inl ht, by simpa [holds, holding, ht] using hh⟩)⟩
  | clearing =>
    exact Or.inr ⟨c, Or.inr (Or.inr ⟨Or.inr ht, by simpa [holds, holding, ht] using hh⟩)⟩

omit [DecidableEq C] in
theorem Quiet.not_in_progress {s : State C} (hq : Quiet s) (h : Hostname) : ¬ InProgress s h := by
  rintro ⟨c, hc⟩
  rcases hq c with ht | ht | ht <;> simp [ht] at hc

omit [DecidableEq C] in
theorem Invariant.disjoint {s : State C} (hi : Invariant s) {c d : C} (hc : c ∈ s.clients)
    (hd : d ∈ s.clients) (hne : c ≠ d) : Disjoint (s.hostnames c) (s.hostnames d) :=
  Finset.disjoint_of_subset_left (own_subset_holds ((hi.members c).mp hc))
    (Finset.disjoint_of_subset_right (own_subset_holds ((hi.members d).mp hd))
      (hi.split.disjoint c d hne))

omit [DecidableEq C] in
theorem Invariant.own_claimed {s : State C} (hi : Invariant s) {c : C} (hc : c ∈ s.clients) :
    s.hostnames c ⊆ s.claimedHttpHostnames :=
  (own_subset_holds ((hi.members c).mp hc)).trans (hi.split.subset c)

omit [DecidableEq C] in
theorem Invariant.claimed_cases {s : State C} (hi : Invariant s) {h : Hostname}
    (hh : h ∈ s.claimedHttpHostnames) :
    (∃! c, c ∈ s.clients ∧ h ∈ s.hostnames c) ∨ InProgress s h := by
  obtain ⟨c, hc⟩ := (hi.split.covers h).mp hh
  refine (holds_cases hc).imp (fun hr => ?_) id
  refine ⟨c, ⟨(hi.members c).mpr hr.1, hr.2⟩, ?_⟩
  rintro d ⟨hd, hhd⟩
  exact hi.split.holder_unique (own_subset_holds ((hi.members d).mp hd) hhd) hc

omit [DecidableEq C] in
theorem Invariant.quiet_claimed {s : State C} (hi : Invariant s) (hq : Quiet s) (h : Hostname) :
    h ∈ s.claimedHttpHostnames ↔ ∃ c ∈ s.clients, h ∈ s.hostnames c := by
  constructor
  · intro hh
    obtain ⟨c, hc, _⟩ := (hi.claimed_cases hh).resolve_right (hq.not_in_progress h)
    exact ⟨c, hc⟩
  · rintro ⟨c, hc, hh⟩
    exact hi.own_claimed hc hh

theorem foreign_release {s : State C} (hi : Invariant s) {c d : C} {h : Hostname}
    (hc : c ∈ s.clients) (hh : h ∈ s.hostnames c) (hne : d ≠ c)
    (he : Enabled s (.releaseHttpHostname d h)) :
    releaseResult s d h = false ∧ next s (.releaseHttpHostname d h) = s := by
  have hd : h ∉ s.hostnames d := fun hd =>
    Finset.disjoint_left.mp (hi.disjoint (hi.registered he trivial) hc hne) hd hh
  simp [releaseResult, next, hd]

/-- A step that frees a name is a step of its holder, so a path without one keeps it. -/
theorem kept_of_not_freed {s t : State C} {tr : List (State C × Event C)} {h : Hostname}
    (hp : Path registry s tr t)
    (hf : ∀ p ∈ tr, ∀ c, h ∈ holds p.1 c → ¬ FreedBy c h p.2) :
    ∀ p ∈ tr, h ∈ p.1.claimedHttpHostnames → h ∈ (next p.1 p.2).claimedHttpHostnames := by
  intro p hm hc
  by_contra hn
  obtain ⟨he, _⟩ := hp.step_mem p hm
  obtain ⟨c, hh, hfree⟩ := unclaimed_by_holder he hc hn
  exact hf p hm c hh hfree

theorem winner_holds {s : State C} {c : C} {h : Hostname} (hw : claimResult s h = true) :
    h ∈ holds (next s (.claimHttpHostname c h)) c := by
  have hn : h ∉ s.claimedHttpHostnames := by simpa [claimResult] using hw
  simp [next, hn, holds, holding]

/-- Ownership of HTTP hostnames in every reachable state and along every path from it. -/
theorem hostname_ownership {s : State C} (hs : Reachable registry s) :
    (∀ c ∈ s.clients, ∀ d ∈ s.clients, c ≠ d → Disjoint (s.hostnames c) (s.hostnames d)) ∧
    (∀ c ∈ s.clients, s.hostnames c ⊆ s.claimedHttpHostnames) ∧
    (∀ h ∈ s.claimedHttpHostnames,
      (∃! c, c ∈ s.clients ∧ h ∈ s.hostnames c) ∨ InProgress s h) ∧
    (Quiet s → ∀ h, h ∈ s.claimedHttpHostnames ↔ ∃ c ∈ s.clients, h ∈ s.hostnames c) ∧
    (∀ t tr h, Path registry s tr t → h ∉ s.claimedHttpHostnames →
      (∀ p ∈ tr, ∀ c, h ∈ holds p.1 c → ¬ FreedBy c h p.2) →
      (∃ p ∈ tr, ∃ c, p.2 = .claimHttpHostname c h) → tr.countP (wins h) = 1) ∧
    (∀ c h, claimResult s h = true → h ∈ holds (next s (.claimHttpHostname c h)) c) ∧
    (∀ t tr c h, Path registry s tr t → h ∈ holds s c → (∀ p ∈ tr, ¬ FreedBy c h p.2) →
      h ∈ holds t c ∧ tr.countP (wins h) = 0) ∧
    (∀ c d h, c ∈ s.clients → h ∈ s.hostnames c → d ≠ c →
      Enabled s (.releaseHttpHostname d h) →
      releaseResult s d h = false ∧ next s (.releaseHttpHostname d h) = s) := by
  have hi := reachable_invariant hs
  refine ⟨fun c hc d hd => hi.disjoint hc hd, fun c hc => hi.own_claimed hc,
    fun h hh => hi.claimed_cases hh, hi.quiet_claimed, ?_, fun c h hw => winner_holds hw, ?_, ?_⟩
  · intro t tr h hp free hf hc
    exact one_claim_wins hp free (kept_of_not_freed hp hf) hc
  · intro t tr c h hp hc hf
    exact holder_refuses hi hp hc hf
  · intro c d h hc hh hne he
    exact foreign_release hi hc hh hne he

def race : List (Event (Fin 2)) :=
  [.register 0, .register 1, .claimHttpHostname 0 "something.localhost",
    .claimHttpHostname 1 "something.localhost", .addHttpHostname 0 "something.localhost"]

theorem hostname_ownership_race :
    releaseResult (replay registry initial race) 1 "something.localhost" = false := by
  have accepted : Accepts registry initial race := by decide
  have h := hostname_ownership (reachable_of_accepts accepted)
  exact (h.2.2.2.2.2.2.2 0 1 "something.localhost" (by decide) (by decide) (by decide)
    (by decide)).1

end Registry
