import Mathlib.Data.List.Basic
import Mathlib.Data.List.Nodup

/-! A table of rows, each under a key of its own: rows are added under fresh keys and overwritten
in place. What is counted is how many rows satisfy a predicate. -/
namespace RowTable

structure Table (κ β : Type*) where
  rows : List (κ × β)
  nodup : (rows.map Prod.fst).Nodup

variable {κ β : Type*}

def Table.keys (t : Table κ β) : List κ := t.rows.map Prod.fst

def Table.count (t : Table κ β) (p : β → Bool) : ℕ := t.rows.countP fun row => p row.2

theorem Table.count_eq_zero {t : Table κ β} {p : β → Bool}
    (h : ∀ row ∈ t.rows, p row.2 = false) : t.count p = 0 := by
  rw [Table.count, List.countP_eq_zero]
  intro row hrow
  simp [h row hrow]

theorem Table.count_perm {t u : Table κ β} (h : t.rows.Perm u.rows) (p : β → Bool) :
    t.count p = u.count p := h.countP_eq _

theorem Table.value_unique (t : Table κ β) {k : κ} {v w : β} (hv : (k, v) ∈ t.rows)
    (hw : (k, w) ∈ t.rows) : v = w :=
  congrArg Prod.snd (List.inj_on_of_nodup_map t.nodup hv hw rfl)

theorem Table.eq_of_count_le_one {t : Table κ β} {p : β → Bool} (h : t.count p ≤ 1)
    {row other : κ × β} (hrow : row ∈ t.rows) (hother : other ∈ t.rows) (hp : p row.2 = true)
    (hq : p other.2 = true) : row = other := by
  rw [Table.count, List.countP_eq_length_filter] at h
  have hm : row ∈ t.rows.filter fun row => p row.2 := List.mem_filter.mpr ⟨hrow, hp⟩
  have hn : other ∈ t.rows.filter fun row => p row.2 := List.mem_filter.mpr ⟨hother, hq⟩
  generalize t.rows.filter (fun row => p row.2) = l at h hm hn
  match l with
  | [] => cases hm
  | [x] => rw [List.mem_singleton.mp hm, List.mem_singleton.mp hn]
  | x :: y :: l => simp at h

def Table.add (t : Table κ β) (k : κ) (v : β) (fresh : k ∉ t.keys) : Table κ β where
  rows := t.rows ++ [(k, v)]
  nodup := by
    rw [List.map_append]
    refine List.nodup_append.mpr ⟨t.nodup, List.nodup_singleton _, ?_⟩
    intro a ha b hb heq
    rw [List.map_singleton, List.mem_singleton] at hb
    apply fresh
    rwa [heq, hb] at ha

@[simp] theorem Table.count_add (t : Table κ β) {k : κ} {v : β} (fresh : k ∉ t.keys)
    (p : β → Bool) : (t.add k v fresh).count p = t.count p + (if p v then 1 else 0) := by
  simp [Table.count, Table.add, List.countP_append, List.countP_singleton]

theorem Table.mem_add (t : Table κ β) {k : κ} {v : β} (fresh : k ∉ t.keys) :
    (k, v) ∈ (t.add k v fresh).rows := by
  simp [Table.add]

variable [DecidableEq κ]

def setRow (k : κ) (v : β) (row : κ × β) : κ × β := if row.1 = k then (k, v) else row

theorem setRow_fst (k : κ) (v : β) (row : κ × β) : (setRow k v row).1 = row.1 := by
  unfold setRow
  split
  · next h => exact h.symm
  · rfl

def Table.set (t : Table κ β) (k : κ) (v : β) : Table κ β where
  rows := t.rows.map (setRow k v)
  nodup := by
    have hkeys : (t.rows.map (setRow k v)).map Prod.fst = t.rows.map Prod.fst := by
      rw [List.map_map]
      exact List.map_congr_left fun row _ => setRow_fst k v row
    rw [hkeys]
    exact t.nodup

theorem Table.mem_set {t : Table κ β} {k : κ} (v : β) (h : k ∈ t.keys) :
    (k, v) ∈ (t.set k v).rows := by
  obtain ⟨row, hrow, rfl⟩ := List.mem_map.mp h
  exact List.mem_map.mpr ⟨row, hrow, by simp [setRow]⟩

theorem Table.count_set_of_row {t : Table κ β} {k : κ} (v : β) {p : β → Bool}
    (h : ∀ w, (k, w) ∈ t.rows → p w = true) : (t.set k v).count p ≤ t.count p := by
  rw [Table.count, Table.count, Table.set, List.countP_map]
  apply List.countP_mono_left
  intro row hrow hp
  by_cases hk : row.1 = k
  · exact h row.2 (hk ▸ hrow)
  · simpa [setRow, hk] using hp

theorem countP_setRow_le {rows : List (κ × β)} (hn : (rows.map Prod.fst).Nodup) (k : κ) (v : β)
    (p : β → Bool) :
    (rows.map (setRow k v)).countP (fun row => p row.2) ≤
      rows.countP (fun row => p row.2) + 1 := by
  induction rows with
  | nil => simp
  | cons row rows ih =>
    rw [List.map_cons, List.nodup_cons] at hn
    by_cases hk : row.1 = k
    · -- the key stands nowhere else
      have hrest : rows.map (setRow k v) = rows := by
        refine (List.map_congr_left fun other ho => ?_).trans (List.map_id _)
        have hne : other.1 ≠ k := fun he => hn.1 (hk ▸ he ▸ List.mem_map_of_mem ho)
        exact if_neg hne
      rw [List.map_cons, hrest, List.countP_cons, List.countP_cons]
      split <;> omega
    · have hsame : setRow k v row = row := if_neg hk
      have hle := ih hn.2
      rw [List.map_cons, hsame, List.countP_cons, List.countP_cons]
      omega

theorem Table.count_set_le (t : Table κ β) (k : κ) (v : β) (p : β → Bool) :
    (t.set k v).count p ≤ t.count p + 1 := countP_setRow_le t.nodup k v p

end RowTable
