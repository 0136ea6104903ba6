import Mathlib.Data.Finset.Basic

/-! A counted reference: the finite set of those who hold a strong one. The value lives as
long as the set is not empty; a weak reference is upgraded only while it lives. -/
namespace SharedReference

variable {η : Type*}

def Dropped (strong : Finset η) : Prop := strong = ∅

def Tracks (strong : Finset η) (holds : η → Bool) : Prop := ∀ h, h ∈ strong ↔ holds h = true

theorem Tracks.dropped {strong : Finset η} {holds : η → Bool} (h : Tracks strong holds)
    (free : ∀ x, holds x = false) : Dropped strong := by
  apply Finset.eq_empty_of_forall_notMem
  intro x hx
  have hholds := (h x).mp hx
  simp [free x] at hholds

theorem Tracks.not_dropped {strong : Finset η} {holds : η → Bool} (h : Tracks strong holds)
    {x : η} (hx : holds x = true) : ¬ Dropped strong := by
  intro hd
  have hmem := (h x).mpr hx
  simp [show strong = ∅ from hd] at hmem

variable [DecidableEq η]

instance (strong : Finset η) : Decidable (Dropped strong) :=
  inferInstanceAs (Decidable (strong = ∅))

def own (strong : Finset η) (h : η) (holds : Bool) : Finset η :=
  if holds then insert h strong else strong.erase h

theorem Tracks.own {strong : Finset η} {before after : η → Bool} (h : Tracks strong before)
    {x : η} {b : Bool} (mine : after x = b) (others : ∀ y, y ≠ x → after y = before y) :
    Tracks (own strong x b) after := by
  intro y
  by_cases hy : y = x
  · subst hy
    cases b <;> simp [SharedReference.own, mine]
  · cases b <;> simp [SharedReference.own, hy, others y hy, h y]

theorem own_dropped {strong : Finset η} (h : Dropped strong) (x : η) :
    Dropped (own strong x false) := by
  simp [Dropped, own, show strong = ∅ from h]

end SharedReference
