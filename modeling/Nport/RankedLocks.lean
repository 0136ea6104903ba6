import Nport.GuardedMachine
import Mathlib.Algebra.BigOperators.Ring.Finset
import Mathlib.Algebra.Order.BigOperators.Group.Finset
import Mathlib.Logic.Function.Basic

/-! Fair locks for readers and writers, and tasks that take and release them by a script. Whoever
wants a lock joins its queue and gets it at the head of the queue, when those who have it admit
that. Tasks that take their locks in the order of a rank do not get stuck. -/
namespace RankedLocks

open GuardedMachine

inductive Mode where
  | shared
  | exclusive
  deriving DecidableEq, Repr

inductive Act (L : Type*) where
  | acquire (l : L) (mode : Mode)
  | release (l : L)
  deriving DecidableEq, Repr

structure State (T L : Type*) where
  /-- what the task is still to do -/
  script : T → List (Act L)
  held : T → List (L × Mode)
  queue : L → List T

inductive Event (T : Type*) where
  | join (t : T)
  | grant (t : T)
  | release (t : T)
  /-- the task is dropped, wherever it stands -/
  | cancel (t : T)
  deriving DecidableEq, Repr

variable {T L : Type*}

def Admits (s : State T L) (l : L) : Mode → Prop
  | .shared => ∀ u, (l, Mode.exclusive) ∉ s.held u
  | .exclusive => ∀ u mode, (l, mode) ∉ s.held u

def Enabled (s : State T L) : Event T → Prop
  | .join t => ∃ l mode rest, s.script t = .acquire l mode :: rest ∧ t ∉ s.queue l
  | .grant t => ∃ l mode rest, s.script t = .acquire l mode :: rest ∧
      (s.queue l).head? = some t ∧ Admits s l mode
  | .release t => ∃ l rest, s.script t = .release l :: rest
  | .cancel t => s.script t ≠ []

variable [DecidableEq T] [DecidableEq L]

omit [DecidableEq T] in
def Act.after (held : List (L × Mode)) : Act L → List (L × Mode)
  | .acquire l mode => (l, mode) :: held
  | .release l => held.filter (·.1 ≠ l)

def next (s : State T L) : Event T → State T L
  | .join t =>
    match s.script t with
    | .acquire l _ :: _ => { s with queue := Function.update s.queue l (s.queue l ++ [t]) }
    | _ => s
  | .grant t =>
    match s.script t with
    | .acquire l mode :: rest =>
      { script := Function.update s.script t rest
        held := Function.update s.held t ((Act.acquire l mode).after (s.held t))
        queue := Function.update s.queue l (s.queue l).tail }
    | _ => s
  | .release t =>
    match s.script t with
    | .release l :: rest =>
      { s with
        script := Function.update s.script t rest
        held := Function.update s.held t ((Act.release l).after (s.held t)) }
    | _ => s
  | .cancel t =>
    { script := Function.update s.script t []
      held := Function.update s.held t []
      queue := fun l => (s.queue l).filter (· ≠ t) }

def locks (script : T → List (Act L)) : Machine (State T L) (Event T) :=
  ⟨⟨script, fun _ => [], fun _ => []⟩, Enabled, next⟩

/-! Scripts that keep to the order of a rank. -/

section Scripts

variable (rank : L → ℕ)

omit [DecidableEq T] [DecidableEq L] in
/-- A lock that is taken ranks above all that are held. -/
def Act.Allowed (held : List (L × Mode)) : Act L → Prop
  | .acquire l _ => ∀ x ∈ held, rank x.1 < rank l
  | .release _ => True

omit [DecidableEq T] in
def Ordered (held : List (L × Mode)) : List (Act L) → Prop
  | [] => held = []
  | a :: rest => a.Allowed rank held ∧ Ordered (a.after held) rest

omit [DecidableEq T]

variable {rank}

theorem Ordered.append {first second : List (Act L)} {held : List (L × Mode)}
    (h : Ordered rank held first) (hs : Ordered rank [] second) :
    Ordered rank held (first ++ second) := by
  induction first generalizing held with
  | nil =>
    obtain rfl : held = [] := h
    exact hs
  | cons a rest ih => exact ⟨h.1, ih h.2⟩

theorem ordered_flatMap {α : Type*} {script : α → List (Act L)}
    (h : ∀ a, Ordered rank [] (script a)) (l : List α) : Ordered rank [] (l.flatMap script) := by
  induction l with
  | nil => rfl
  | cons a l ih => exact (h a).append ih

end Scripts

/-! What holds in every state. -/

structure Invariant (rank : L → ℕ) (s : State T L) : Prop where
  ordered : ∀ t, Ordered rank (s.held t) (s.script t)
  /-- a task waits for the lock it is to take next -/
  waiting : ∀ l, ∀ t ∈ s.queue l, ∃ mode rest, s.script t = .acquire l mode :: rest
  nodup : ∀ l, (s.queue l).Nodup
  exclusion : ∀ t u l mode, (l, Mode.exclusive) ∈ s.held t → (l, mode) ∈ s.held u → t = u

section Step

variable {rank : L → ℕ} {s : State T L}

omit [DecidableEq T] in
theorem Invariant.not_queued (h : Invariant rank s) {t : T} {l k : L} {mode : Mode}
    {rest : List (Act L)} (ht : s.script t = .acquire l mode :: rest) (hk : t ∈ s.queue k) :
    k = l := by
  obtain ⟨m, r, hscript⟩ := h.waiting k t hk
  rw [ht] at hscript
  cases hscript
  rfl

theorem join_invariant {t : T} (h : Invariant rank s) (he : Enabled s (.join t)) :
    Invariant rank (next s (.join t)) := by
  obtain ⟨l, mode, rest, ht, hfresh⟩ := he
  simp only [next, ht]
  refine ⟨h.ordered, ?_, ?_, h.exclusion⟩
  · intro k u hu
    by_cases hk : k = l
    · subst k
      simp only [Function.update_self] at hu
      rcases List.mem_append.mp hu with hu | hu
      · exact h.waiting l u hu
      · rw [List.mem_singleton.mp hu]
        exact ⟨mode, rest, ht⟩
    · exact h.waiting k u (by simpa [hk] using hu)
  · intro k
    by_cases hk : k = l
    · subst k
      simp only [Function.update_self, List.nodup_append]
      refine ⟨h.nodup l, List.nodup_singleton t, ?_⟩
      rintro u hu v hv rfl
      rw [List.mem_singleton.mp hv] at hu
      exact hfresh hu
    · simpa only [Function.update_of_ne hk] using h.nodup k

theorem grant_invariant {t : T} (h : Invariant rank s) (he : Enabled s (.grant t)) :
    Invariant rank (next s (.grant t)) := by
  obtain ⟨l, mode, rest, ht, hhead, hadmits⟩ := he
  obtain ⟨others, hqueue⟩ := List.head?_eq_some_iff.mp hhead
  have hnodup := h.nodup l
  rw [hqueue, List.nodup_cons] at hnodup
  simp only [next, ht]
  refine ⟨?_, ?_, ?_, ?_⟩
  · intro u
    by_cases hu : u = t
    · subst u
      have hordered := h.ordered t
      rw [ht] at hordered
      simpa using hordered.2
    · simpa [hu] using h.ordered u
  · intro k u hu
    have hne : u ≠ t := by
      rintro rfl
      by_cases hk : k = l
      · subst k
        exact hnodup.1 (by simpa [hqueue] using hu)
      · exact hk (h.not_queued ht (by simpa [hk] using hu))
    simp only [Function.update_of_ne hne]
    by_cases hk : k = l
    · subst k
      exact h.waiting l u (List.mem_of_mem_tail (by simpa using hu))
    · exact h.waiting k u (by simpa [hk] using hu)
  · intro k
    by_cases hk : k = l
    · subst k
      simpa [hqueue] using hnodup.2
    · simpa [hk] using h.nodup k
  · intro u v k m hu hv
    by_cases hut : u = t
    · subst u
      by_cases hvt : v = t
      · exact hvt.symm
      · simp only [Function.update_of_ne hvt] at hv
        simp only [Function.update_self] at hu
        rcases List.mem_cons.mp hu with heq | hold
        · cases heq
          exact absurd hv (hadmits v m)
        · exact h.exclusion t v k m hold hv
    · simp only [Function.update_of_ne hut] at hu
      by_cases hvt : v = t
      · subst v
        simp only [Function.update_self] at hv
        rcases List.mem_cons.mp hv with heq | hold
        · cases heq
          cases mode with
          | shared => exact absurd hu (hadmits u)
          | exclusive => exact absurd hu (hadmits u .exclusive)
        · exact h.exclusion u t k m hu hold
      · simp only [Function.update_of_ne hvt] at hv
        exact h.exclusion u v k m hu hv

omit [DecidableEq T] [DecidableEq L] in
theorem exclusion_mono {held : T → List (L × Mode)}
    (h : ∀ t u l mode, (l, Mode.exclusive) ∈ s.held t → (l, mode) ∈ s.held u → t = u)
    (hsub : ∀ t, held t ⊆ s.held t) :
    ∀ t u l mode, (l, Mode.exclusive) ∈ held t → (l, mode) ∈ held u → t = u :=
  fun t u l mode ht hu => h t u l mode (hsub t ht) (hsub u hu)

theorem release_invariant {t : T} (h : Invariant rank s) (he : Enabled s (.release t)) :
    Invariant rank (next s (.release t)) := by
  obtain ⟨l, rest, ht⟩ := he
  simp only [next, ht]
  refine ⟨?_, ?_, h.nodup, exclusion_mono h.exclusion ?_⟩
  · intro u
    by_cases hu : u = t
    · subst u
      have hordered := h.ordered t
      rw [ht] at hordered
      simpa using hordered.2
    · simpa [hu] using h.ordered u
  · intro k u hu
    obtain ⟨mode, others, hscript⟩ := h.waiting k u hu
    have hne : u ≠ t := by
      rintro rfl
      rw [ht] at hscript
      cases hscript
    exact ⟨mode, others, by simpa [hne] using hscript⟩
  · intro u
    by_cases hu : u = t
    · subst u
      simp only [Function.update_self]
      exact List.filter_subset_self _
    · simp only [Function.update_of_ne hu]
      exact List.Subset.refl _

theorem cancel_invariant {t : T} (h : Invariant rank s) :
    Invariant rank (next s (.cancel t)) := by
  refine ⟨?_, ?_, fun k => (h.nodup k).filter _, exclusion_mono h.exclusion ?_⟩
  · intro u
    by_cases hu : u = t
    · subst u
      simp [next, Ordered]
    · simpa [next, hu] using h.ordered u
  · intro k u hu
    obtain ⟨hold, hne⟩ := List.mem_filter.mp hu
    have hne : u ≠ t := by simpa using hne
    simpa [next, hne] using h.waiting k u hold
  · intro u
    by_cases hu : u = t
    · subst u
      simp [next]
    · simp [next, hu]

theorem step_invariant {e : Event T} (h : Invariant rank s) (he : Enabled s e) :
    Invariant rank (next s e) := by
  cases e with
  | join t => exact join_invariant h he
  | grant t => exact grant_invariant h he
  | release t => exact release_invariant h he
  | cancel t => exact cancel_invariant h

end Step

theorem initial_invariant {rank : L → ℕ} {script : T → List (Act L)}
    (h : ∀ t, Ordered rank [] (script t)) : Invariant rank (locks script).initial :=
  ⟨h, fun _ _ ht => absurd ht List.not_mem_nil, fun _ => List.nodup_nil,
    fun _ _ _ _ ht => absurd ht List.not_mem_nil⟩

theorem run_invariant {rank : L → ℕ} {script : T → List (Act L)} {s : State T L}
    {tr : List (State T L × Event T)} (hordered : ∀ t, Ordered rank [] (script t))
    (h : Run (locks script) tr s) : Invariant rank s := by
  have keep (u : State T L) (e : Event T) (hu : Invariant rank u)
      (he : (locks script).Enabled u e) : Invariant rank ((locks script).next u e) :=
    step_invariant hu he
  exact Path.invariant keep h (initial_invariant hordered)

/-! No task is stuck for good. -/

def Event.Proceeds : Event T → Prop
  | .cancel _ => False
  | _ => True

section Progress

variable {rank : L → ℕ} {s : State T L}

omit [DecidableEq T] [DecidableEq L] in
theorem task_moves {t : T} (ht : s.script t ≠ []) :
    (∃ e : Event T, e.Proceeds ∧ Enabled s e) ∨
      ∃ l mode rest, s.script t = .acquire l mode :: rest ∧ t ∈ s.queue l := by
  match hscript : s.script t with
  | [] => exact absurd hscript ht
  | .release l :: rest => exact Or.inl ⟨.release t, trivial, l, rest, hscript⟩
  | .acquire l mode :: rest =>
    by_cases hq : t ∈ s.queue l
    · exact Or.inr ⟨l, mode, rest, rfl, hq⟩
    · exact Or.inl ⟨.join t, trivial, l, mode, rest, hscript, hq⟩

omit [DecidableEq T] [DecidableEq L] in
theorem holder_of_not_admits {l : L} {mode : Mode} (h : ¬ Admits s l mode) :
    ∃ u other, (l, other) ∈ s.held u := by
  by_contra hnone
  apply h
  cases mode with
  | shared => exact fun u hu => hnone ⟨u, _, hu⟩
  | exclusive => exact fun u other hu => hnone ⟨u, other, hu⟩

omit [DecidableEq T] in
/-- Somebody can go on when a lock is waited for: the first in its queue, or who holds it, or
somebody at a lock of a higher rank, which the holder waits for. -/
theorem moves_of_queue (h : Invariant rank s) {bound : ℕ} (hbound : ∀ l, rank l ≤ bound) {l : L}
    (hl : s.queue l ≠ []) : ∃ e : Event T, e.Proceeds ∧ Enabled s e := by
  induction hn : bound - rank l using Nat.strongRecOn generalizing l with
  | _ n ih =>
    obtain ⟨t, others, hqueue⟩ := List.exists_cons_of_ne_nil hl
    obtain ⟨mode, rest, ht⟩ := h.waiting l t (by simp [hqueue])
    by_cases hadmits : Admits s l mode
    · exact ⟨.grant t, trivial, l, mode, rest, ht, by simp [hqueue], hadmits⟩
    · obtain ⟨u, other, hu⟩ := holder_of_not_admits hadmits
      have hordered := h.ordered u
      have hunfinished : s.script u ≠ [] := by
        intro hnil
        rw [hnil] at hordered
        have hempty : s.held u = [] := hordered
        simp [hempty] at hu
      rcases task_moves hunfinished with hmove | ⟨k, m, r, hk, hq⟩
      · exact hmove
      · rw [hk] at hordered
        have hhigher : rank l < rank k := hordered.1 _ hu
        have hle := hbound k
        exact ih (bound - rank k) (by omega) (List.ne_nil_of_mem hq) rfl

omit [DecidableEq T] in
theorem moves_of_unfinished (h : Invariant rank s) {bound : ℕ} (hbound : ∀ l, rank l ≤ bound)
    {t : T} (ht : s.script t ≠ []) : ∃ e : Event T, e.Proceeds ∧ Enabled s e := by
  rcases task_moves ht with hmove | ⟨l, _, _, _, hq⟩
  · exact hmove
  · exact moves_of_queue h hbound (List.ne_nil_of_mem hq)

end Progress

/-! How many steps there are. -/

section Work

variable {rank : L → ℕ} {s : State T L}

omit [DecidableEq L] in
def waits (s : State T L) (t : T) : Bool :=
  match s.script t with
  | .acquire l _ :: _ => t ∈ s.queue l
  | _ => false

def load (s : State T L) (t : T) : ℕ := 2 * (s.script t).length - (waits s t).toNat

omit [DecidableEq L] in
theorem load_congr {u : State T L} {t : T} (hscript : u.script t = s.script t)
    (hqueue : ∀ l, t ∈ u.queue l ↔ t ∈ s.queue l) : load u t = load s t := by
  simp only [load, waits, hscript, hqueue]

omit [DecidableEq L] in
theorem load_of_not_queued {t : T} (h : ∀ l, t ∉ s.queue l) :
    load s t = 2 * (s.script t).length := by
  have hwaits : waits s t = false := by
    unfold waits
    split
    · simp [h]
    · rfl
  simp [load, hwaits]

omit [DecidableEq L] in
theorem load_acquire {t : T} {l : L} {mode : Mode} {rest : List (Act L)}
    (ht : s.script t = .acquire l mode :: rest) (hq : t ∈ s.queue l) :
    load s t = 2 * rest.length + 1 := by
  have hwaits : waits s t = true := by simp [waits, ht, hq]
  simp only [load, hwaits, ht, List.length_cons, Bool.toNat_true]
  omega

theorem load_next {e : Event T} (h : Invariant rank s) (he : Enabled s e) :
    ∃ t, load (next s e) t < load s t ∧ ∀ u, u ≠ t → load (next s e) u = load s u := by
  cases e with
  | join t =>
    obtain ⟨l, mode, rest, ht, hfresh⟩ := he
    have hidle : ∀ k, t ∉ s.queue k := by
      intro k hk
      rw [h.not_queued ht hk] at hk
      exact hfresh hk
    refine ⟨t, ?_, fun u hu => load_congr (by simp [next, ht]) fun k => ?_⟩
    · rw [load_of_not_queued hidle, ht]
      have hscript : (next s (.join t)).script t = .acquire l mode :: rest := by simp [next, ht]
      have hafter : load (next s (.join t)) t = 2 * rest.length + 1 :=
        load_acquire hscript (by simp [next, ht])
      rw [hafter, List.length_cons]
      omega
    · by_cases hk : k = l
      · subst k
        simp [next, ht, hu]
      · simp [next, ht, hk]
  | grant t =>
    obtain ⟨l, mode, rest, ht, hhead, _⟩ := he
    obtain ⟨others, hqueue⟩ := List.head?_eq_some_iff.mp hhead
    have hnodup := h.nodup l
    rw [hqueue, List.nodup_cons] at hnodup
    have hgone : ∀ k, t ∉ (next s (.grant t)).queue k := by
      intro k hk
      by_cases heq : k = l
      · subst k
        exact hnodup.1 (by simpa [next, ht, hqueue] using hk)
      · exact heq (h.not_queued ht (by simpa [next, ht, heq] using hk))
    refine ⟨t, ?_, fun u hu => load_congr (by simp [next, ht, hu]) fun k => ?_⟩
    · rw [load_of_not_queued hgone, load_acquire ht (by simp [hqueue])]
      simp [next, ht]
    · by_cases hk : k = l
      · subst k
        simp [next, ht, hqueue, hu]
      · simp [next, ht, hk]
  | release t =>
    obtain ⟨l, rest, ht⟩ := he
    have hidle : ∀ k, t ∉ s.queue k := by
      intro k hk
      obtain ⟨mode, others, hscript⟩ := h.waiting k t hk
      rw [ht] at hscript
      cases hscript
    refine ⟨t, ?_, fun u hu => load_congr (by simp [next, ht, hu]) fun k => by simp [next, ht]⟩
    have hafter : ∀ k, t ∉ (next s (.release t)).queue k := by simpa [next, ht] using hidle
    rw [load_of_not_queued hidle, load_of_not_queued hafter]
    simp [next, ht]
  | cancel t =>
    have hafter : ∀ k, t ∉ (next s (.cancel t)).queue k := by simp [next]
    refine ⟨t, ?_, fun u hu => load_congr (by simp [next, hu]) fun k => by simp [next, hu]⟩
    rw [load_of_not_queued hafter]
    have hpos : 0 < (s.script t).length := List.length_pos_iff.mpr he
    have hle := Bool.toNat_le (waits s t)
    simp only [next, Function.update_self, List.length_nil, load]
    omega

variable [Fintype T]

def work (s : State T L) : ℕ := ∑ t, load s t

theorem work_next {e : Event T} (h : Invariant rank s) (he : Enabled s e) :
    work (next s e) < work s := by
  obtain ⟨t, hless, hsame⟩ := load_next h he
  refine Finset.sum_lt_sum (fun u _ => ?_) ⟨t, Finset.mem_univ t, hless⟩
  by_cases hu : u = t
  · rw [hu]
    exact hless.le
  · exact (hsame u hu).le

theorem work_run {script : T → List (Act L)} (hordered : ∀ t, Ordered rank [] (script t))
    {tr : List (State T L × Event T)} (h : Run (locks script) tr s) :
    tr.length + work s ≤ work (locks script).initial := by
  induction h with
  | refl => simp
  | @tail tr u e hpath he ih =>
    have hless : work ((locks script).next u e) < work u :=
      work_next (run_invariant hordered hpath) he
    rw [List.length_append, List.length_singleton]
    omega

theorem length_le {script : T → List (Act L)} (hordered : ∀ t, Ordered rank [] (script t))
    {tr : List (State T L × Event T)} (h : Run (locks script) tr s) :
    tr.length ≤ 2 * ∑ t, (script t).length := by
  have hwork : work (locks script).initial = 2 * ∑ t, (script t).length := by
    rw [Finset.mul_sum]
    exact Finset.sum_congr rfl fun t _ => load_of_not_queued fun _ => List.not_mem_nil
  have hle := work_run hordered h
  omega

end Work

theorem finished {rank : L → ℕ} {script : T → List (Act L)} {s : State T L}
    {tr : List (State T L × Event T)} (hordered : ∀ t, Ordered rank [] (script t)) {bound : ℕ}
    (hbound : ∀ l, rank l ≤ bound) (h : Run (locks script) tr s)
    (hend : ∀ e : Event T, e.Proceeds → ¬ Enabled s e) (t : T) :
    s.script t = [] ∧ s.held t = [] := by
  have hinv := run_invariant hordered h
  have hscript : s.script t = [] := by
    by_contra hne
    obtain ⟨e, hproceeds, he⟩ := moves_of_unfinished hinv hbound hne
    exact hend e hproceeds he
  refine ⟨hscript, ?_⟩
  have hordered := hinv.ordered t
  rwa [hscript] at hordered

end RankedLocks
