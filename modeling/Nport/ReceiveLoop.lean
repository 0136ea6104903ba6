import Mathlib.Data.List.Basic

/-! A loop that receives frames one by one: a frame is handed to a handler, passed over, or
ends the loop, and so may the handler. Two runs of it are compared, one with further frames
between those of the other. -/
namespace ReceiveLoop

inductive Action (μ : Type*) where
  | dispatch (message : μ)
  | skip
  | stop

/-- What can be seen of a finite run: what went to the handler, and whether the loop is up. -/
@[ext]
structure Outcome (μ : Type*) where
  dispatched : List μ
  up : Bool
  deriving DecidableEq

def Outcome.after {μ : Type*} (message : μ) (o : Outcome μ) : Outcome μ :=
  { o with dispatched := message :: o.dispatched }

variable {φ μ σ : Type*} (act : φ → Action μ) (handle : σ → μ → σ × Bool)

def run (s : σ) : List φ → Outcome μ
  | [] => ⟨[], true⟩
  | f :: rest =>
    match act f with
    | .skip => run s rest
    | .stop => ⟨[], false⟩
    | .dispatch m =>
      if (handle s m).2 then (run (handle s m).1 rest).after m else ⟨[m], false⟩

def EndsFirst : List φ → Prop
  | [] => False
  | f :: rest =>
    match act f with
    | .skip => EndsFirst rest
    | .stop => True
    | .dispatch _ => False

/-! Frames are marked when they were inserted. -/

def all (l : List (φ × Bool)) : List φ := l.map Prod.fst

def kept : List (φ × Bool) → List φ
  | [] => []
  | (_, true) :: l => kept l
  | (f, false) :: l => f :: kept l

/-- An inserted frame that stops the loop comes after its end, or directly before it. -/
def Unnoticed (s : σ) (l : List (φ × Bool)) : Prop :=
  ∀ before f after, l = before ++ (f, true) :: after → act f = .stop →
    (run act handle s (kept before)).up = true → EndsFirst act (kept after)

variable {act handle}

theorem Outcome.after_inj {m : μ} {o o' : Outcome μ} : o.after m = o'.after m ↔ o = o' := by
  simp [Outcome.after, Outcome.ext_iff]

theorem kept_append (a b : List (φ × Bool)) : kept (a ++ b) = kept a ++ kept b := by
  induction a with
  | nil => rfl
  | cons p a ih =>
    obtain ⟨f, mark⟩ := p
    cases mark
    · simp [kept, ih]
    · exact ih

theorem run_skip {s : σ} {f : φ} {rest : List φ} (h : act f = .skip) :
    run act handle s (f :: rest) = run act handle s rest := by
  simp [run, h]

theorem run_stop {s : σ} {f : φ} {rest : List φ} (h : act f = .stop) :
    run act handle s (f :: rest) = ⟨[], false⟩ := by
  simp [run, h]

theorem run_dispatch {s : σ} {f : φ} {m : μ} {rest : List φ} (h : act f = .dispatch m)
    (hgo : (handle s m).2 = true) :
    run act handle s (f :: rest) = (run act handle (handle s m).1 rest).after m := by
  simp [run, h, hgo]

theorem run_failed {s : σ} {f : φ} {m : μ} {rest : List φ} (h : act f = .dispatch m)
    (hend : (handle s m).2 = false) : run act handle s (f :: rest) = ⟨[m], false⟩ := by
  simp [run, h, hend]

theorem run_eq_ended_iff (s : σ) (l : List φ) :
    run act handle s l = ⟨[], false⟩ ↔ EndsFirst act l := by
  induction l with
  | nil => simp [run, EndsFirst]
  | cons f rest ih =>
    cases h : act f with
    | skip => rw [run_skip h, ih, EndsFirst, h]
    | stop => simp [run_stop h, EndsFirst, h]
    | dispatch m =>
      cases hm : (handle s m).2 with
      | true => simp [run_dispatch h hm, Outcome.after, EndsFirst, h]
      | false => simp [run_failed h hm, EndsFirst, h]

theorem EndsFirst.of_append {a b : List φ} (h : EndsFirst act (a ++ b)) {s : σ}
    (up : (run act handle s a).up = true) : EndsFirst act b := by
  induction a with
  | nil => exact h
  | cons f a ih =>
    rw [List.cons_append, EndsFirst] at h
    cases hf : act f with
    | skip =>
      rw [hf] at h
      exact ih h (by rwa [run_skip hf] at up)
    | stop => simp [run_stop hf] at up
    | dispatch m => simp [hf] at h

theorem unnoticed_nil (s : σ) : Unnoticed act handle s [] := by
  intro before f after h
  simp at h

theorem unnoticed_cons {s t : σ} {p : φ × Bool} {l : List (φ × Bool)}
    (head : p.2 = true → act p.1 ≠ .stop)
    (up : ∀ before, (run act handle s (kept (p :: before))).up =
      (run act handle t (kept before)).up) :
    Unnoticed act handle s (p :: l) ↔ Unnoticed act handle t l := by
  constructor
  · intro h before f after hl hf hu
    exact h (p :: before) f after (by simp [hl]) hf (by rw [up]; exact hu)
  · intro h before f after hl hf hu
    cases before with
    | nil =>
      obtain ⟨rfl, rfl⟩ : p = (f, true) ∧ l = after := by simpa using hl
      exact absurd hf (head rfl)
    | cons q before =>
      obtain ⟨rfl, hrest⟩ : p = q ∧ l = before ++ (f, true) :: after := by simpa using hl
      exact h before f after hrest hf (by rw [← up]; exact hu)

theorem unnoticed_ended {s : σ} {f : φ} {l : List (φ × Bool)}
    (down : ∀ before, (run act handle s (kept ((f, false) :: before))).up = false) :
    Unnoticed act handle s ((f, false) :: l) := by
  intro before g after hl _ hu
  cases before with
  | nil => simp at hl
  | cons q before =>
    obtain ⟨rfl, _⟩ : (f, false) = q ∧ l = before ++ (g, true) :: after := by simpa using hl
    rw [down] at hu
    cases hu

/-- An inserted frame that stops the loop: the frames after it have to do the same. -/
theorem unnoticed_stop {s : σ} {f : φ} {l : List (φ × Bool)} (h : act f = .stop) :
    Unnoticed act handle s ((f, true) :: l) ↔ EndsFirst act (kept l) := by
  constructor
  · intro hu
    exact hu [] f l rfl h rfl
  · intro he before g after hl hg hup
    cases before with
    | nil =>
      obtain ⟨_, rfl⟩ : f = g ∧ l = after := by simpa using hl
      exact he
    | cons q before =>
      obtain ⟨rfl, rfl⟩ : (f, true) = q ∧ l = before ++ (g, true) :: after := by simpa using hl
      rw [kept_append] at he
      have hrest : EndsFirst act (kept ((g, true) :: after)) := he.of_append hup
      exact hrest

/-- Inserted frames that are not dispatched go unnoticed exactly where none of them stops
a loop that the other frames would have kept up. -/
theorem run_all_eq_kept_iff {l : List (φ × Bool)} (s : σ)
    (inserted : ∀ p ∈ l, p.2 = true → ∀ m, act p.1 ≠ .dispatch m) :
    run act handle s (all l) = run act handle s (kept l) ↔ Unnoticed act handle s l := by
  induction l generalizing s with
  | nil => simpa [all, kept] using unnoticed_nil s
  | cons p l ih =>
    have ih := fun t => ih t fun q hq => inserted q (List.mem_cons_of_mem _ hq)
    have hp := inserted p (List.mem_cons_self ..)
    obtain ⟨f, mark⟩ := p
    have hall : all ((f, mark) :: l) = f :: all l := rfl
    rw [hall]
    cases mark with
    | true =>
      have hkept : kept ((f, true) :: l) = kept l := rfl
      rw [hkept]
      cases hf : act f with
      | dispatch m => exact absurd hf (hp rfl m)
      | skip =>
        rw [run_skip hf, ih s]
        exact (unnoticed_cons (by simp [hf]) fun _ => rfl).symm
      | stop => rw [run_stop hf, eq_comm, run_eq_ended_iff, unnoticed_stop hf]
    | false =>
      have hkept : kept ((f, false) :: l) = f :: kept l := rfl
      rw [hkept]
      cases hf : act f with
      | skip =>
        rw [run_skip hf, run_skip hf, ih s]
        refine (unnoticed_cons (by simp) ?_).symm
        intro before
        simp only [kept, run_skip hf]
      | stop =>
        rw [run_stop hf, run_stop hf]
        refine iff_of_true rfl (unnoticed_ended ?_)
        intro before
        simp only [kept, run_stop hf]
      | dispatch m =>
        cases hm : (handle s m).2 with
        | false =>
          rw [run_failed hf hm, run_failed hf hm]
          refine iff_of_true rfl (unnoticed_ended ?_)
          intro before
          simp only [kept, run_failed hf hm]
        | true =>
          rw [run_dispatch hf hm, run_dispatch hf hm]
          rw [Outcome.after_inj, ih]
          refine (unnoticed_cons (by simp) ?_).symm
          intro before
          simp only [kept, run_dispatch hf hm, Outcome.after]

end ReceiveLoop
