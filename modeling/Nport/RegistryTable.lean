import Nport.NameTable
import Nport.Registry

/-! The registry as a table of names. Its two records are written one after the other, and a
client that leaves gives its names back long after its last operation; but what the clients are
told is what a table tells them that does each operation in one step. -/
namespace RegistryTable

open GuardedMachine
open Simulation
open Registry
open NameTable (Answer table)

variable {C : Type*} [DecidableEq C]

/-- What a client is told, in the critical section that decides it: the first one of a claim and
of a release that fails, the last one otherwise. -/
def told (s : State C) : Registry.Event C → Option (Answer C Hostname)
  | .claimHttpHostname c h => some (.claimed c h (claimResult s h))
  | .releaseHttpHostname c h => if releaseResult s c h then none else some (.released c h false)
  | .unclaim c h => some (.released c h true)
  | .clear c => some (.left c)
  | _ => none

/-- Who holds a name, with all half-done operations, is who owns it. -/
structure Owns (s : State C) (owner : Hostname → Option C) : Prop where
  invariant : Invariant s
  holder : ∀ h c, owner h = some c ↔ h ∈ holds s c

variable {s t : State C} {owner : Hostname → Option C}

omit [DecidableEq C] in
theorem Owns.free (h : Owns s owner) (k : Hostname) :
    owner k = none ↔ k ∉ s.claimedHttpHostnames := by
  rw [h.invariant.split.covers, not_exists, Option.eq_none_iff_forall_ne_some]
  exact forall_congr' fun c => not_congr (h.holder k c)

omit [DecidableEq C] in
theorem Owns.congr (h : Owns s owner) (ht : Invariant t) (hsame : ∀ d, holds t d = holds s d) :
    Owns t owner :=
  ⟨ht, fun k c => by rw [hsame, h.holder]⟩

theorem Owns.update (h : Owns s owner) (ht : Invariant t) {c : C} {k : Hostname}
    {next : Option C} (hfree : ∀ d, d ≠ c → k ∉ holds s d) (hnext : ∀ d, next = some d → d = c)
    (hmine : ∀ j, j ∈ holds t c ↔ (j ≠ k ∧ j ∈ holds s c) ∨ (j = k ∧ next = some c))
    (hothers : ∀ d, d ≠ c → holds t d = holds s d) : Owns t (Function.update owner k next) := by
  refine ⟨ht, fun j d => ?_⟩
  by_cases hd : d = c
  · subst d
    by_cases hj : j = k
    · subst j
      simp [hmine]
    · simp [hmine, hj, h.holder]
  · rw [hothers d hd]
    by_cases hj : j = k
    · subst j
      rw [Function.update_self]
      exact iff_of_false (fun hsome => hd (hnext d hsome)) (hfree d hd)
    · rw [Function.update_of_ne hj, h.holder]

theorem holds_unseen {e : Registry.Event C} (hi : Invariant s) (he : Enabled s e)
    (hnone : told s e = none) : ∀ d, holds (next s e) d = holds s d := by
  intro d
  cases e with
  | register c =>
    by_cases hd : d = c
    · subst d
      simp [holds, holding, next, he.1, hi.unborn c he.1]
    · simp [holds, next, hd]
  | claimHttpHostname c k => cases hnone
  | addHttpHostname c k =>
    have hc : s.task c = .claiming k := he
    by_cases hd : d = c
    · subst d
      simp [holds, holding, next, hc]
    · simp [holds, next, hd]
  | releaseHttpHostname c k =>
    have hc : s.task c = .idle := he
    have hk : k ∈ s.hostnames c := by
      by_contra hk
      simp [told, releaseResult, hk] at hnone
    by_cases hd : d = c
    · subst d
      simp [holds, holding, next, hc, hk, Finset.insert_erase hk]
    · simp [holds, next, hk, hd]
  | unclaim c k => cases hnone
  | deregister c =>
    have hm : c ∈ s.clients := (hi.members c).mpr (by rw [he.1]; trivial)
    cases hindex : s.clients.idxOf? c with
    | none => exact absurd hm (List.idxOf?_eq_none_iff.mp hindex)
    | some index =>
      by_cases hd : d = c
      · subst d
        simp [holds, holding, next, hindex, he.1]
      · simp [holds, next, hindex, hd]
  | lockClaimed c =>
    by_cases hd : d = c
    · subst d
      simp [holds, holding, next, he.1]
    · simp [holds, next, hd]
  | clear c => cases hnone

theorem claim_step (h : Owns s owner) {c : C} {k : Hostname}
    (he : Enabled s (.claimHttpHostname c k)) :
    NameTable.answer owner (.claim c k) = told s (.claimHttpHostname c k) ∧
      Owns (next s (.claimHttpHostname c k)) (NameTable.next owner (.claim c k)) := by
  have hinv := step_preserves_invariant h.invariant he
  refine ⟨by simp [NameTable.answer, told, claimResult, h.free], ?_⟩
  by_cases hk : k ∈ s.claimedHttpHostnames
  · have howned : owner k ≠ none := by simp [h.free, hk]
    have hsame : next s (.claimHttpHostname c k) = s := if_pos hk
    rw [NameTable.next, if_neg howned, hsame]
    exact h
  · have hfree : owner k = none := (h.free k).mpr hk
    have hnobody : ∀ d, k ∉ holds s d := fun d hd => hk (h.invariant.split.subset d hd)
    have hidle : s.task c = .idle := he.1
    rw [NameTable.next, if_pos hfree]
    refine h.update hinv (c := c) (fun d _ => hnobody d) (fun d hd => (Option.some.inj hd).symm)
      (fun j => ?_) fun d hd => ?_
    · by_cases hj : j = k
      · subst j
        simp [holds, holding, next, hk]
      · simp [holds, holding, next, hk, hj, hidle]
    · simp [holds, next, hk, hd]

theorem release_step (h : Owns s owner) {c : C} {k : Hostname}
    (he : Enabled s (.releaseHttpHostname c k)) (hk : k ∉ s.hostnames c) :
    NameTable.answer owner (.release c k) = told s (.releaseHttpHostname c k) ∧
      Owns (next s (.releaseHttpHostname c k)) (NameTable.next owner (.release c k)) := by
  have hidle : s.task c = .idle := he
  have hother : owner k ≠ some c := by
    rw [Ne, h.holder]
    simpa [holds, holding, hidle] using hk
  have hsame : next s (.releaseHttpHostname c k) = s := if_neg hk
  rw [NameTable.next, if_neg hother, hsame]
  exact ⟨by simp [NameTable.answer, told, releaseResult, hk, hother], h⟩

theorem unclaim_step (h : Owns s owner) {c : C} {k : Hostname} (he : Enabled s (.unclaim c k)) :
    NameTable.answer owner (.release c k) = told s (.unclaim c k) ∧
      Owns (next s (.unclaim c k)) (NameTable.next owner (.release c k)) := by
  have hinv := step_preserves_invariant h.invariant he
  have htask : s.task c = .releasing k := he.1
  have hmine : k ∈ holds s c := by simp [holds, holding, htask]
  have hown : owner k = some c := (h.holder k c).mpr hmine
  have hgone : k ∉ s.hostnames c := h.invariant.released c k htask
  rw [NameTable.next, if_pos hown]
  refine ⟨by simp [NameTable.answer, told, hown], ?_⟩
  refine h.update hinv (c := c) (fun d hd hheld => ?_) (fun d hd => by cases hd) (fun j => ?_)
    fun d hd => ?_
  · exact hd (h.invariant.split.holder_unique hheld hmine)
  · by_cases hj : j = k
    · subst j
      simp [holds, holding, next, hgone]
    · simp [holds, holding, next, htask, hj]
  · simp [holds, next, hd]

theorem clear_step (h : Owns s owner) {c : C} (he : Enabled s (.clear c)) :
    Owns (next s (.clear c)) (NameTable.next owner (.leave c)) := by
  have hinv := step_preserves_invariant h.invariant he
  refine ⟨hinv, fun k d => ?_⟩
  by_cases hd : d = c
  · subst d
    simp [NameTable.next, holds, holding, next]
  · have hsame : holds (next s (.clear c)) d = holds s d := by simp [holds, next, hd]
    rw [hsame, ← h.holder, NameTable.next]
    by_cases hown : owner k = some c
    · simp [hown, Ne.symm hd]
    · simp [hown]

theorem simulates : Simulates registry (table C Hostname) told NameTable.answer Owns where
  start := ⟨initial_invariant, fun h c => by simp [table, registry, initial, holds, holding]⟩
  step s owner e h he := by
    cases hseen : told s e with
    | none =>
      exact Or.inl ⟨rfl, h.congr (step_preserves_invariant h.invariant he)
        (holds_unseen h.invariant he hseen)⟩
    | some a =>
      refine Or.inr ?_
      rw [← hseen]
      cases e with
      | claimHttpHostname c k => exact ⟨.claim c k, trivial, claim_step h he⟩
      | releaseHttpHostname c k =>
        have hk : k ∉ s.hostnames c := by
          intro hk
          simp [told, releaseResult, hk] at hseen
        exact ⟨.release c k, trivial, release_step h he hk⟩
      | unclaim c k => exact ⟨.release c k, trivial, unclaim_step h he⟩
      | clear c => exact ⟨.leave c, trivial, rfl, clear_step h he⟩
      | _ => cases hseen

/-- The answers of a run are those of a table that takes one step for each operation: a claim is
granted exactly when, going by the answers before it, nobody has the name, and a release succeeds
exactly for the client that has it. Who has a name by the answers is who holds it. -/
theorem answers_linearizable {tr : List (State C × Registry.Event C)} (h : Run registry tr s) :
    (∃ abstractTr owner, Run (table C Hostname) abstractTr owner ∧ Owns s owner ∧
      shown NameTable.answer abstractTr = shown told tr) ∧
    Each NameTable.Fair (shown told tr) ∧
    ∀ name c, NameTable.ownerAfter (shown told tr) name = some c ↔ name ∈ holds s c := by
  obtain ⟨abstractTr, owner, hrun, howns, hshown⟩ := simulates.run h
  obtain ⟨howner, hfair⟩ := NameTable.answers_fair hrun
  rw [hshown] at howner hfair
  refine ⟨⟨abstractTr, owner, hrun, howns, hshown⟩, hfair, fun name c => ?_⟩
  rw [howner, howns.holder]

theorem answers_linearizable_race :
    Each NameTable.Fair (shown told (trace registry initial race)) := by
  have accepted : Accepts registry initial race := by decide
  exact (answers_linearizable (path_of_accepts accepted)).2.1

end RegistryTable
