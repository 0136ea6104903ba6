import Mathlib.Data.Finset.Basic
import Mathlib.Data.Finset.SDiff

/-! Exclusive holdings: a finite set of keys split without overlap among holders.
The four moves (take a free key, give one back, give everything back, change only
the bookkeeping) keep the split; no arbitration between holders is assumed. -/
namespace ExclusiveHolding

variable {α κ : Type*}

/-- Nothing is held twice, and the taken keys are exactly the held ones. -/
structure Split (taken : Finset κ) (held : α → Finset κ) : Prop where
  disjoint : ∀ a b, a ≠ b → Disjoint (held a) (held b)
  covers : ∀ k, k ∈ taken ↔ ∃ a, k ∈ held a

variable {taken : Finset κ} {held held' : α → Finset κ}

theorem Split.holder_unique (h : Split taken held) {a b : α} {k : κ}
    (ha : k ∈ held a) (hb : k ∈ held b) : a = b := by
  by_contra hne
  exact Finset.disjoint_left.mp (h.disjoint a b hne) ha hb

theorem Split.subset (h : Split taken held) (a : α) : held a ⊆ taken :=
  fun k hk => (h.covers k).mpr ⟨a, hk⟩

theorem Split.empty : Split (∅ : Finset κ) (fun _ : α => ∅) :=
  ⟨fun _ _ _ => Finset.disjoint_empty_left _, by simp⟩

theorem Split.unchanged (h : Split taken held) (same : ∀ b, held' b = held b) :
    Split taken held' := by
  obtain rfl : held' = held := funext same
  exact h

variable [DecidableEq κ]

theorem Split.take (h : Split taken held) {a : α} {k : κ} (free : k ∉ taken)
    (mine : held' a = insert k (held a)) (others : ∀ b, b ≠ a → held' b = held b) :
    Split (insert k taken) held' := by
  have fresh : ∀ b, k ∉ held b := fun b hb => free (h.subset b hb)
  constructor
  · intro b c hbc
    by_cases hb : b = a
    · subst b
      rw [mine, others c hbc.symm, Finset.disjoint_insert_left]
      exact ⟨fresh c, h.disjoint a c hbc⟩
    · by_cases hc : c = a
      · subst c
        rw [mine, others b hb, Finset.disjoint_insert_right]
        exact ⟨fresh b, h.disjoint b a hbc⟩
      · rw [others b hb, others c hc]
        exact h.disjoint b c hbc
  · intro j
    rw [Finset.mem_insert, h.covers j]
    constructor
    · rintro (rfl | ⟨b, hb⟩)
      · exact ⟨a, by rw [mine]; exact Finset.mem_insert_self _ _⟩
      · by_cases he : b = a
        · exact ⟨a, by rw [mine]; exact Finset.mem_insert_of_mem (he ▸ hb)⟩
        · exact ⟨b, by rwa [others b he]⟩
    · rintro ⟨b, hb⟩
      by_cases he : b = a
      · subst b
        rw [mine] at hb
        exact (Finset.mem_insert.mp hb).imp id fun hb => ⟨a, hb⟩
      · exact Or.inr ⟨b, by rwa [others b he] at hb⟩

theorem Split.give (h : Split taken held) {a : α} {back : Finset κ} (own : back ⊆ held a)
    (mine : held' a = held a \ back) (others : ∀ b, b ≠ a → held' b = held b) :
    Split (taken \ back) held' := by
  have smaller : ∀ b, held' b ⊆ held b := by
    intro b
    by_cases hb : b = a
    · subst b; rw [mine]; exact Finset.sdiff_subset
    · rw [others b hb]
  constructor
  · intro b c hbc
    exact Finset.disjoint_of_subset_left (smaller b)
      (Finset.disjoint_of_subset_right (smaller c) (h.disjoint b c hbc))
  · intro j
    rw [Finset.mem_sdiff, h.covers j]
    constructor
    · rintro ⟨⟨b, hb⟩, hj⟩
      by_cases he : b = a
      · exact ⟨a, by rw [mine]; exact Finset.mem_sdiff.mpr ⟨he ▸ hb, hj⟩⟩
      · exact ⟨b, by rwa [others b he]⟩
    · rintro ⟨b, hb⟩
      refine ⟨⟨b, smaller b hb⟩, ?_⟩
      intro hj
      obtain rfl : b = a := h.holder_unique (smaller b hb) (own hj)
      rw [mine] at hb
      exact (Finset.mem_sdiff.mp hb).2 hj

end ExclusiveHolding
