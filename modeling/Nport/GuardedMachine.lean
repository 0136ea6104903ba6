import Mathlib.Data.List.Basic
import Mathlib.Data.List.Count

/-! Guarded transition machines and their finite paths.
A path records, for every step, the state it was taken in and the event taken.
No fairness and no scheduler: every enabled event may be chosen at every point. -/
namespace GuardedMachine

structure Machine (σ ε : Type*) where
  initial : σ
  Enabled : σ → ε → Prop
  next : σ → ε → σ

variable {σ ε : Type*} {M : Machine σ ε}

inductive Path (M : Machine σ ε) (s : σ) : List (σ × ε) → σ → Prop where
  | refl : Path M s [] s
  | tail {tr t e} : Path M s tr t → M.Enabled t e → Path M s (tr ++ [(t, e)]) (M.next t e)

def Run (M : Machine σ ε) (tr : List (σ × ε)) (s : σ) : Prop := Path M M.initial tr s

def Reachable (M : Machine σ ε) (s : σ) : Prop := ∃ tr, Run M tr s

/-- Every state of a path: the ones its steps were taken in, and the last one. -/
def visited (tr : List (σ × ε)) (s : σ) : List σ := tr.map Prod.fst ++ [s]

theorem Path.trans {s t u : σ} {p q : List (σ × ε)} (h : Path M s p t) (k : Path M t q u) :
    Path M s (p ++ q) u := by
  induction k with
  | refl => simpa using h
  | tail _ he ih => rw [← List.append_assoc]; exact .tail ih he

theorem Path.invariant {I : σ → Prop} (keep : ∀ t e, I t → M.Enabled t e → I (M.next t e))
    {s t : σ} {tr : List (σ × ε)} (h : Path M s tr t) (hs : I s) : I t := by
  induction h with
  | refl => exact hs
  | tail _ he ih => exact keep _ _ ih he

theorem Reachable.invariant {I : σ → Prop} (start : I M.initial)
    (keep : ∀ t e, I t → M.Enabled t e → I (M.next t e)) {s : σ} (h : Reachable M s) : I s := by
  obtain ⟨tr, h⟩ := h
  exact Path.invariant keep h start

theorem Path.invariant_where {I : σ → Prop} {C : σ → ε → Prop}
    (keep : ∀ t e, I t → M.Enabled t e → C t e → I (M.next t e))
    {s t : σ} {tr : List (σ × ε)} (h : Path M s tr t) (hs : I s)
    (hc : ∀ p ∈ tr, C p.1 p.2) : I t := by
  induction h with
  | refl => exact hs
  | @tail tr u e _ he ih =>
    have hu := ih fun p hp => hc p (List.mem_append_left _ hp)
    exact keep _ _ hu he (hc (u, e) (by simp))

theorem Path.step_mem {s t : σ} {tr : List (σ × ε)} (h : Path M s tr t) :
    ∀ p ∈ tr, M.Enabled p.1 p.2 ∧ ∃ before, before <+: tr ∧ Path M s before p.1 := by
  induction h with
  | refl => simp
  | @tail tr u e hp he ih =>
    intro p hm
    rcases List.mem_append.mp hm with hm | hm
    · obtain ⟨ho, before, hb, hpath⟩ := ih p hm
      exact ⟨ho, before, hb.trans (List.prefix_append _ _), hpath⟩
    · obtain rfl : p = (u, e) := by simpa using hm
      exact ⟨he, tr, List.prefix_append _ _, hp⟩

theorem Path.forall_steps_where {I : σ → Prop} {C Q : σ → ε → Prop}
    (keep : ∀ t e, I t → M.Enabled t e → C t e → I (M.next t e))
    (each : ∀ t e, I t → M.Enabled t e → C t e → Q t e)
    {s t : σ} {tr : List (σ × ε)} (h : Path M s tr t) (hs : I s)
    (hc : ∀ p ∈ tr, C p.1 p.2) : ∀ p ∈ tr, Q p.1 p.2 := by
  intro p hp
  obtain ⟨he, before, hpre, hb⟩ := h.step_mem p hp
  have hi := hb.invariant_where keep hs fun q hq => hc q (hpre.sublist.subset hq)
  exact each _ _ hi he (hc p hp)

theorem Path.forall_visited_where {I : σ → Prop} {C : σ → ε → Prop}
    (keep : ∀ t e, I t → M.Enabled t e → C t e → I (M.next t e))
    {s t : σ} {tr : List (σ × ε)} (h : Path M s tr t) (hs : I s)
    (hc : ∀ p ∈ tr, C p.1 p.2) : ∀ u ∈ visited tr t, I u := by
  intro u hu
  rcases List.mem_append.mp hu with hu | hu
  · obtain ⟨p, hp, rfl⟩ := List.mem_map.mp hu
    obtain ⟨_, before, hb, hpath⟩ := h.step_mem p hp
    exact hpath.invariant_where keep hs fun q hq => hc q (hb.sublist.subset hq)
  · obtain rfl : u = t := by simpa using hu
    exact h.invariant_where keep hs hc

/-- The states of a run satisfy `P` exactly when its steps satisfy `C`, when `J` is an
invariant of the steps that satisfy `C`, `J` gives `P`, and a step without `C` breaks `P`. -/
theorem Path.forall_visited_iff {J P : σ → Prop} {C : σ → ε → Prop}
    (keep : ∀ t e, J t → M.Enabled t e → C t e → J (M.next t e))
    (safe : ∀ t, J t → P t)
    (broken : ∀ t e, J t → M.Enabled t e → ¬ C t e → ¬ P (M.next t e))
    {s t : σ} {tr : List (σ × ε)} (h : Path M s tr t) (hs : J s) :
    (∀ u ∈ visited tr t, P u) ↔ ∀ p ∈ tr, C p.1 p.2 := by
  constructor
  · induction h with
    | refl => simp
    | @tail tr u e hp he ih =>
      intro hall p hm
      have hold : ∀ v ∈ visited tr u, P v := by
        intro v hv
        apply hall v
        simp only [visited, List.map_append, List.mem_append] at hv ⊢
        rcases hv with hv | hv
        · exact Or.inl (Or.inl hv)
        · exact Or.inl (Or.inr (by simpa using hv))
      have hc := ih hold
      rcases List.mem_append.mp hm with hm | hm
      · exact hc p hm
      · obtain rfl : p = (u, e) := by simpa using hm
        by_contra hn
        have hj := hp.invariant_where keep hs hc
        exact broken u e hj he hn (hall _ (by simp [visited]))
  · intro hc u hu
    exact safe _ (h.forall_visited_where keep hs hc u hu)

theorem Path.last_iff {I P : σ → Prop} {C : σ → ε → Prop}
    (keep : ∀ t e, I t → M.Enabled t e → I (M.next t e))
    (each : ∀ t e, I t → M.Enabled t e → (P (M.next t e) ↔ P t ∧ C t e))
    {s t : σ} {tr : List (σ × ε)} (h : Path M s tr t) (hs : I s) (hp : P s) :
    P t ↔ ∀ p ∈ tr, C p.1 p.2 := by
  induction h with
  | refl => simpa using hp
  | @tail tr u e hpath he ih =>
    rw [each u e (hpath.invariant keep hs) he, ih]
    simp [or_imp, forall_and]

/-- A latch: the steps selected by `fires` need `open` and close it, nothing reopens it.
Then at most one step of a path is selected. -/
theorem Path.fires_at_most_once {L : σ → Prop} {fires : σ × ε → Bool}
    {s t : σ} {tr : List (σ × ε)} (h : Path M s tr t)
    (needs : ∀ p ∈ tr, M.Enabled p.1 p.2 → fires p → ¬ L p.1 ∧ L (M.next p.1 p.2))
    (keep : ∀ p ∈ tr, L p.1 → L (M.next p.1 p.2)) :
    tr.countP fires ≤ 1 ∧ (1 ≤ tr.countP fires → L t) ∧ (L s → tr.countP fires = 0 ∧ L t) := by
  induction h with
  | refl => simp
  | @tail tr u e _ he ih =>
    obtain ⟨h1, h2, h3⟩ := ih (fun p hp => needs p (List.mem_append_left _ hp))
      fun p hp => keep p (List.mem_append_left _ hp)
    have hk : L u → L (M.next u e) := keep (u, e) (by simp)
    rw [List.countP_append]
    by_cases hf : fires (u, e) = true
    · obtain ⟨hn, hl⟩ := needs (u, e) (by simp) he hf
      have hz : tr.countP fires = 0 := by
        by_contra hz
        exact hn (h2 (by omega))
      simp only [List.countP_singleton, hf, if_true, hz]
      refine ⟨Nat.le_refl _, fun _ => hl, fun hs => absurd (h3 hs).2 hn⟩
    · simp only [List.countP_singleton, hf, Bool.false_eq_true, if_false, Nat.add_zero]
      exact ⟨h1, fun h => hk (h2 h), fun hs => ⟨(h3 hs).1, hk (h3 hs).2⟩⟩

theorem Path.fires_of_closed {L : σ → Prop} {fires : σ × ε → Bool}
    (only : ∀ p, M.Enabled p.1 p.2 → ¬ fires p → L (M.next p.1 p.2) → L p.1)
    {s t : σ} {tr : List (σ × ε)} (h : Path M s tr t) (hs : ¬ L s) (ht : L t) :
    1 ≤ tr.countP fires := by
  induction h with
  | refl => exact absurd ht hs
  | @tail tr u e _ he ih =>
    rw [List.countP_append, List.countP_singleton]
    by_cases hf : fires (u, e) = true
    · simp [hf]
    · have := ih (only (u, e) he hf ht)
      omega

/-- A goal is within reach when, short of it, some step always adds to a bounded measure. -/
theorem exists_path_of_measure {I G : σ → Prop} (measure : σ → ℕ) (bound : ℕ)
    (bounded : ∀ s, I s → measure s ≤ bound)
    (progress : ∀ s, I s → ¬ G s →
      ∃ e, M.Enabled s e ∧ I (M.next s e) ∧ measure s < measure (M.next s e))
    {s : σ} (hs : I s) : ∃ tr t, Path M s tr t ∧ G t := by
  induction hn : bound - measure s using Nat.strongRecOn generalizing s with
  | _ n ih =>
    by_cases hg : G s
    · exact ⟨[], s, .refl, hg⟩
    · obtain ⟨e, he, hi, hmore⟩ := progress s hs hg
      have hle := bounded _ hi
      obtain ⟨tr, t, hp, ht⟩ := ih _ (by omega) hi rfl
      have hstep : Path M s [(s, e)] (M.next s e) := .tail .refl he
      exact ⟨_, t, hstep.trans hp, ht⟩

/-! What holds of each step together with the steps before it. -/

def Each {α : Type*} (P : List α → α → Prop) (l : List α) : Prop :=
  ∀ before x after, l = before ++ x :: after → P before x

theorem each_nil {α : Type*} {P : List α → α → Prop} : Each P [] := by
  intro before x after h
  simp at h

theorem split_concat {α : Type*} {l before after : List α} {m x : α}
    (h : l ++ [x] = before ++ m :: after) :
    (∃ init, l = before ++ m :: init) ∨ (x = m ∧ before = l) := by
  rcases List.eq_nil_or_concat after with rfl | ⟨init, last, rfl⟩
  · obtain ⟨hl, hx⟩ := List.append_inj' h rfl
    exact Or.inr ⟨by simpa using hx, hl.symm⟩
  · rw [List.concat_eq_append, ← List.cons_append, ← List.append_assoc] at h
    exact Or.inl ⟨init, (List.append_inj' h rfl).1⟩

theorem each_concat {α : Type*} {P : List α → α → Prop} {l : List α} {x : α} :
    Each P (l ++ [x]) ↔ Each P l ∧ P l x := by
  constructor
  · intro h
    refine ⟨?_, h l x [] rfl⟩
    intro before y after hl
    exact h before y (after ++ [x]) (by simp [hl])
  · rintro ⟨hl, hx⟩ before y after heq
    rcases split_concat heq with ⟨init, hold⟩ | ⟨rfl, rfl⟩
    · exact hl before y init hold
    · exact hx

/-! Replaying a list of events. -/

def Accepts (M : Machine σ ε) : σ → List ε → Prop
  | _, [] => True
  | s, e :: es => M.Enabled s e ∧ Accepts M (M.next s e) es

instance decidableAccepts [∀ s e, Decidable (M.Enabled s e)] :
    ∀ (s : σ) (es : List ε), Decidable (Accepts M s es)
  | _, [] => isTrue trivial
  | s, e :: es =>
    have := decidableAccepts (M.next s e) es
    inferInstanceAs (Decidable (_ ∧ _))

def replay (M : Machine σ ε) (s : σ) (es : List ε) : σ := es.foldl M.next s

def trace (M : Machine σ ε) : σ → List ε → List (σ × ε)
  | _, [] => []
  | s, e :: es => (s, e) :: trace M (M.next s e) es

theorem path_of_accepts {s : σ} {es : List ε} (h : Accepts M s es) :
    Path M s (trace M s es) (replay M s es) := by
  induction es generalizing s with
  | nil => exact .refl
  | cons e es ih =>
    have hstep : Path M s [(s, e)] (M.next s e) := .tail .refl h.1
    exact hstep.trans (ih h.2)

theorem reachable_of_accepts {es : List ε} (h : Accepts M M.initial es) :
    Reachable M (replay M M.initial es) :=
  ⟨_, path_of_accepts h⟩

end GuardedMachine
