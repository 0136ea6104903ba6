import Mathlib.Data.Finset.Card
import Mathlib.Logic.Function.Basic

/-! How many members of a type, finite or not, satisfy a predicate, and how one point update
of a function changes the number. -/
namespace Tally

variable {α β : Type*}

def Counted (p : α → Prop) (n : ℕ) : Prop :=
  ∃ members : Finset α, (∀ a, a ∈ members ↔ p a) ∧ members.card = n

theorem Counted.unique {p : α → Prop} {m n : ℕ} (hm : Counted p m) (hn : Counted p n) :
    m = n := by
  obtain ⟨s, hs, rfl⟩ := hm
  obtain ⟨t, ht, rfl⟩ := hn
  have heq : s = t := by
    ext a
    rw [hs, ht]
  rw [heq]

theorem counted_zero_iff {p : α → Prop} : Counted p 0 ↔ ∀ a, ¬ p a := by
  constructor
  · rintro ⟨s, hs, hc⟩ a ha
    rw [Finset.card_eq_zero.mp hc] at hs
    exact Finset.notMem_empty a ((hs a).mpr ha)
  · intro h
    exact ⟨∅, by simpa using h, rfl⟩

theorem Counted.congr {p q : α → Prop} {n : ℕ} (h : Counted p n) (same : ∀ a, q a ↔ p a) :
    Counted q n := by
  obtain rfl : q = p := funext fun a => propext (same a)
  exact h

theorem Counted.le {p q : α → Prop} {m n : ℕ} (hm : Counted p m) (hn : Counted q n)
    (hpq : ∀ a, p a → q a) : m ≤ n := by
  obtain ⟨s, hs, rfl⟩ := hm
  obtain ⟨t, ht, rfl⟩ := hn
  exact Finset.card_le_card fun a ha => (ht a).mpr (hpq a ((hs a).mp ha))

variable [DecidableEq α]

theorem Counted.enter {p q : α → Prop} {n : ℕ} (h : Counted p n) {a : α} (fresh : ¬ p a)
    (hq : ∀ b, q b ↔ b = a ∨ p b) : Counted q (n + 1) := by
  obtain ⟨s, hs, rfl⟩ := h
  refine ⟨insert a s, ?_, Finset.card_insert_of_notMem (mt (hs a).mp fresh)⟩
  intro b
  rw [Finset.mem_insert, hs, hq]

theorem Counted.leave {p q : α → Prop} {n : ℕ} (h : Counted p n) {a : α} (ha : p a)
    (hq : ∀ b, q b ↔ b ≠ a ∧ p b) : ∃ m, Counted q m ∧ m + 1 = n := by
  obtain ⟨s, hs, rfl⟩ := h
  refine ⟨(s.erase a).card, ⟨s.erase a, ?_, rfl⟩, Finset.card_erase_add_one ((hs a).mpr ha)⟩
  intro b
  rw [Finset.mem_erase, hs, hq]

theorem Counted.update {f : α → β} {p : β → Prop} [DecidablePred p] {n : ℕ}
    (h : Counted (fun a => p (f a)) n) (a : α) (y : β) :
    ∃ m, Counted (fun b => p (Function.update f a y b)) m ∧
      m + (if p (f a) then 1 else 0) = n + (if p y then 1 else 0) := by
  have others (b : α) (hb : b ≠ a) : p (Function.update f a y b) ↔ p (f b) := by
    rw [Function.update_of_ne hb]
  by_cases ha : p (f a)
  · by_cases hy : p y
    · refine ⟨n, h.congr fun b => ?_, by simp [ha, hy]⟩
      by_cases hb : b = a
      · subst b; simp [ha, hy]
      · exact others b hb
    · obtain ⟨m, hm, hmn⟩ := h.leave (q := fun b => p (Function.update f a y b)) ha (by
        intro b
        by_cases hb : b = a
        · subst b; simp [hy]
        · simp [hb])
      exact ⟨m, hm, by simp [ha, hy, hmn]⟩
  · by_cases hy : p y
    · refine ⟨n + 1, h.enter ha ?_, by simp [ha, hy]⟩
      intro b
      by_cases hb : b = a
      · subst b; simp [hy]
      · simp [hb]
    · refine ⟨n, h.congr fun b => ?_, by simp [ha, hy]⟩
      by_cases hb : b = a
      · subst b; simp [ha, hy]
      · exact others b hb

end Tally
