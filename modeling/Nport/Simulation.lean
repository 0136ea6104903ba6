import Nport.GuardedMachine

/-! Forward simulations between guarded machines. A step of the one is matched by a step of the
other that shows the same, or by none when it shows nothing. -/
namespace Simulation

open GuardedMachine

variable {σ ε τ δ ω : Type*}

def shown (see : σ → ε → Option ω) (tr : List (σ × ε)) : List ω :=
  tr.filterMap fun p => see p.1 p.2

theorem shown_concat (see : σ → ε → Option ω) (tr : List (σ × ε)) (s : σ) (e : ε) :
    shown see (tr ++ [(s, e)]) = shown see tr ++ (see s e).toList := by
  cases h : see s e <;> simp [shown, h]

structure Simulates (M : Machine σ ε) (N : Machine τ δ) (see : σ → ε → Option ω)
    (abstractSee : τ → δ → Option ω) (R : σ → τ → Prop) : Prop where
  start : R M.initial N.initial
  step : ∀ s t e, R s t → M.Enabled s e →
    (see s e = none ∧ R (M.next s e) t) ∨
      ∃ d, N.Enabled t d ∧ abstractSee t d = see s e ∧ R (M.next s e) (N.next t d)

variable {M : Machine σ ε} {N : Machine τ δ} {see : σ → ε → Option ω}
  {abstractSee : τ → δ → Option ω} {R : σ → τ → Prop}

/-- Whatever is to be seen of a run is to be seen of a run of the other machine. -/
theorem Simulates.run (h : Simulates M N see abstractSee R) {tr : List (σ × ε)} {s : σ}
    (hrun : Run M tr s) :
    ∃ abstractTr t, Run N abstractTr t ∧ R s t ∧ shown abstractSee abstractTr = shown see tr := by
  induction hrun with
  | refl => exact ⟨[], _, .refl, h.start, rfl⟩
  | @tail tr u e _ he ih =>
    obtain ⟨abstractTr, t, hpath, hrel, hshown⟩ := ih
    rcases h.step u t e hrel he with ⟨hnone, hnext⟩ | ⟨d, hd, hsame, hnext⟩
    · refine ⟨abstractTr, t, hpath, hnext, ?_⟩
      rw [shown_concat, hnone, Option.toList_none, List.append_nil, hshown]
    · refine ⟨abstractTr ++ [(t, d)], N.next t d, .tail hpath hd, hnext, ?_⟩
      rw [shown_concat, shown_concat, hsame, hshown]

end Simulation
