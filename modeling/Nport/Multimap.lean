import Mathlib.Data.List.AList
import Mathlib.Data.List.Induction

/-! Multimaps that keep the values of a key together, in order, and what is left of one
after a passage through a map with one value for a key. The order of the keys is not
part of what a multimap says; the order of the values of one key is. -/
namespace Multimap

variable {κ ν : Type*} [DecidableEq κ]

def values (k : κ) (l : List (κ × ν)) : List ν := (l.filter (·.1 = k)).map Prod.snd

def last (k : κ) (l : List (κ × ν)) : Option ν := (values k l).getLast?

@[simp] theorem values_nil (k : κ) : values k ([] : List (κ × ν)) = [] := rfl

@[simp] theorem values_append (k : κ) (a b : List (κ × ν)) :
    values k (a ++ b) = values k a ++ values k b := by
  simp [values]

theorem values_singleton (k k' : κ) (v : ν) :
    values k [(k', v)] = if k' = k then [v] else [] := by
  by_cases hk : k' = k <;> simp [values, hk]

theorem values_cons (k : κ) (e : κ × ν) (l : List (κ × ν)) :
    values k (e :: l) = (if e.1 = k then [e.2] else []) ++ values k l := by
  rw [← values_singleton k e.1 e.2, ← values_append]
  rfl

theorem last_concat (k : κ) (l : List (κ × ν)) (e : κ × ν) :
    last k (l ++ [e]) = if e.1 = k then some e.2 else last k l := by
  by_cases hk : e.1 = k
  · simp [last, values_cons, hk]
  · simp [last, values_cons, hk]

theorem mem_values {k : κ} {v : ν} {l : List (κ × ν)} : v ∈ values k l ↔ (k, v) ∈ l := by
  simp [values]

theorem mem_of_last {k : κ} {v : ν} {l : List (κ × ν)} (h : last k l = some v) : (k, v) ∈ l :=
  mem_values.mp (List.mem_of_getLast? h)

theorem last_eq_of_forall_mem_iff {k : κ} {l : List (κ × ν)} {o : Option ν}
    (h : ∀ v, (k, v) ∈ l ↔ o = some v) : last k l = o := by
  cases hlast : last k l with
  | none =>
    rw [last, List.getLast?_eq_none_iff] at hlast
    cases ho : o with
    | none => rfl
    | some v =>
      have hv := mem_values.mpr ((h v).mpr ho)
      rw [hlast] at hv
      cases hv
  | some v => exact ((h v).mp (mem_of_last hlast)).symm

theorem last_cons (k : κ) (e : κ × ν) (l : List (κ × ν)) :
    last k (e :: l) = (last k l).or (if e.1 = k then some e.2 else none) := by
  rw [last, values_cons, List.getLast?_append]
  by_cases hk : e.1 = k <;> simp [last, hk]

theorem values_of_nodup {l : List (κ × ν)} (h : (l.map Prod.fst).Nodup) {k : κ} {v : ν}
    (hm : (k, v) ∈ l) : values k l = [v] := by
  induction l with
  | nil => simp at hm
  | cons e l ih =>
    simp only [List.map_cons, List.nodup_cons] at h
    rcases List.mem_cons.mp hm with rfl | hm
    · have hnone : values k l = [] := by
        apply List.eq_nil_iff_forall_not_mem.mpr
        intro w hw
        exact h.1 (List.mem_map.mpr ⟨_, mem_values.mp hw, rfl⟩)
      simp [values_cons, hnone]
    · have hne : e.1 ≠ k := by
        rintro rfl
        exact h.1 (List.mem_map.mpr ⟨_, hm, rfl⟩)
      simp [values_cons, hne, ih h.2 hm]

theorem values_eq_last {l : List (κ × ν)} (h : (l.map Prod.fst).Nodup) (k : κ) :
    values k l = (last k l).toList := by
  cases hv : values k l with
  | nil => simp [last, hv]
  | cons v vs =>
    have hone := values_of_nodup h (mem_values.mp (by simp [hv] : v ∈ values k l))
    simp [last, ← hv, hone]

theorem values_filter {k : κ} {l : List (κ × ν)} {p : κ × ν → Bool}
    (hp : ∀ v, p (k, v) = true) : values k (l.filter p) = values k l := by
  induction l with
  | nil => rfl
  | cons e l ih =>
    by_cases hk : e.1 = k
    · have he : p e = true := by
        rw [← hp e.2, ← hk]
      simp [he, values_cons, ih]
    · by_cases he : p e = true
      · simp [he, values_cons, ih]
      · simp [he, values_cons, ih, hk]

structure Grouped (κ ν : Type*) where
  groups : List (κ × List ν)
  distinct : (groups.map Prod.fst).Nodup
  inhabited : ∀ g ∈ groups, g.2 ≠ []

def valuesOf (k : κ) : List (κ × List ν) → List ν
  | [] => []
  | (k', vs) :: rest => if k' = k then vs else valuesOf k rest

def updateGroup (k : κ) (f : List ν → List ν) : List (κ × List ν) → List (κ × List ν)
  | [] => [(k, f [])]
  | (k', vs) :: rest =>
    if k' = k then (k', f vs) :: rest else (k', vs) :: updateGroup k f rest

theorem valuesOf_eq_nil {k : κ} {g : List (κ × List ν)} (h : k ∉ g.map Prod.fst) :
    valuesOf k g = [] := by
  induction g with
  | nil => rfl
  | cons e g ih =>
    simp only [List.map_cons, List.mem_cons, not_or] at h
    simp [valuesOf, Ne.symm h.1, ih h.2]

theorem valuesOf_updateGroup (k k' : κ) (f : List ν → List ν) (g : List (κ × List ν)) :
    valuesOf k' (updateGroup k f g) = if k' = k then f (valuesOf k g) else valuesOf k' g := by
  induction g with
  | nil =>
    by_cases hk : k' = k
    · simp [updateGroup, valuesOf, hk]
    · simp [updateGroup, valuesOf, hk, Ne.symm hk]
  | cons e g ih =>
    by_cases he : e.1 = k
    · by_cases hk : k' = k
      · simp [updateGroup, valuesOf, he, hk]
      · simp [updateGroup, valuesOf, he, hk, Ne.symm hk]
    · by_cases hk : k' = k
      · subst hk
        simp [updateGroup, valuesOf, he, ih]
      · simp [updateGroup, valuesOf, he, ih, hk]

theorem mem_keys_updateGroup {k k' : κ} {f : List ν → List ν} {g : List (κ × List ν)} :
    k' ∈ (updateGroup k f g).map Prod.fst ↔ k' = k ∨ k' ∈ g.map Prod.fst := by
  induction g with
  | nil => simp [updateGroup]
  | cons e g ih =>
    by_cases he : e.1 = k
    · simp [updateGroup, he]
    · simp only [updateGroup, he, if_false, List.map_cons, List.mem_cons, ih]
      tauto

theorem nodup_updateGroup {k : κ} {f : List ν → List ν} {g : List (κ × List ν)}
    (h : (g.map Prod.fst).Nodup) : ((updateGroup k f g).map Prod.fst).Nodup := by
  induction g with
  | nil => simp [updateGroup]
  | cons e g ih =>
    simp only [List.map_cons, List.nodup_cons] at h
    by_cases he : e.1 = k
    · simp only [updateGroup, he, if_true, List.map_cons, List.nodup_cons]
      exact he ▸ h
    · simp only [updateGroup, if_neg he, List.map_cons, List.nodup_cons, mem_keys_updateGroup]
      exact ⟨fun hm => hm.elim he h.1, ih h.2⟩

theorem inhabited_updateGroup {k : κ} {f : List ν → List ν} (hf : ∀ vs, f vs ≠ [])
    {g : List (κ × List ν)} (h : ∀ e ∈ g, e.2 ≠ []) : ∀ e ∈ updateGroup k f g, e.2 ≠ [] := by
  induction g with
  | nil => simp [updateGroup, hf]
  | cons e g ih =>
    by_cases he : e.1 = k
    · simp only [updateGroup, he, if_true, List.mem_cons]
      rintro d (rfl | hd)
      · exact hf _
      · exact h d (List.mem_cons_of_mem _ hd)
    · simp only [updateGroup, he, if_false, List.mem_cons]
      rintro d (rfl | hd)
      · exact h _ List.mem_cons_self
      · exact ih (fun c hc => h c (List.mem_cons_of_mem _ hc)) d hd

namespace Grouped

def empty : Grouped κ ν := ⟨[], List.nodup_nil, by simp⟩

def update (m : Grouped κ ν) (k : κ) (f : List ν → List ν) (hf : ∀ vs, f vs ≠ []) :
    Grouped κ ν :=
  ⟨updateGroup k f m.groups, nodup_updateGroup m.distinct, inhabited_updateGroup hf m.inhabited⟩

def insert (m : Grouped κ ν) (k : κ) (v : ν) : Grouped κ ν :=
  m.update k (fun _ => [v]) (by simp)

def append (m : Grouped κ ν) (k : κ) (v : ν) : Grouped κ ν :=
  m.update k (· ++ [v]) (by simp)

def getAll (m : Grouped κ ν) (k : κ) : List ν := valuesOf k m.groups

def iter (m : Grouped κ ν) : List (κ × ν) := m.groups.flatMap fun g => g.2.map (g.1, ·)

def headed (g : κ × List ν) : List (Option κ × ν) :=
  match g.2 with
  | [] => []
  | v :: vs => (some g.1, v) :: vs.map (none, ·)

/-- Every value; only the first one of a key comes with the key. -/
def intoIter (m : Grouped κ ν) : List (Option κ × ν) := m.groups.flatMap headed

/-- Takes values in the form of intoIter: a named value replaces what its key has, one
without a name goes to the key before it. -/
def extend (m : Grouped κ ν) (current : Option κ) : List (Option κ × ν) → Grouped κ ν
  | [] => m
  | (some k, v) :: rest => extend (m.insert k v) (some k) rest
  | (none, v) :: rest =>
    match current with
    | some k => extend (m.append k v) current rest
    | none => m

variable {m : Grouped κ ν}

@[simp] theorem getAll_empty (k : κ) : (empty : Grouped κ ν).getAll k = [] := rfl

@[simp] theorem getAll_insert (k k' : κ) (v : ν) :
    (m.insert k v).getAll k' = if k' = k then [v] else m.getAll k' :=
  valuesOf_updateGroup k k' _ m.groups

@[simp] theorem getAll_append (k k' : κ) (v : ν) :
    (m.append k v).getAll k' = if k' = k then m.getAll k ++ [v] else m.getAll k' :=
  valuesOf_updateGroup k k' _ m.groups

theorem values_groups {g : List (κ × List ν)} (h : (g.map Prod.fst).Nodup) (k : κ) :
    values k (g.flatMap fun e => e.2.map (e.1, ·)) = valuesOf k g := by
  induction g with
  | nil => rfl
  | cons e g ih =>
    simp only [List.map_cons, List.nodup_cons] at h
    rw [List.flatMap_cons, values_append, ih h.2]
    by_cases he : e.1 = k
    · have hrest : valuesOf k g = [] := valuesOf_eq_nil (he ▸ h.1)
      simp [values, valuesOf, he, hrest, List.filter_map, Function.comp_def]
    · simp [values, valuesOf, he, List.filter_map, Function.comp_def]

theorem values_iter (k : κ) : values k m.iter = m.getAll k := values_groups m.distinct k

theorem getAll_foldl_append (l : List (κ × ν)) (k : κ) :
    (l.foldl (fun m e => m.append e.1 e.2) m).getAll k = m.getAll k ++ values k l := by
  induction l generalizing m with
  | nil => simp
  | cons e l ih =>
    rw [List.foldl_cons, ih, values_cons, getAll_append]
    by_cases hk : k = e.1
    · simp [hk]
    · simp [hk, Ne.symm hk]

theorem getAll_foldl_insert (l : List (κ × ν)) (k : κ) :
    (l.foldl (fun m e => m.insert e.1 e.2) m).getAll k =
      match last k l with
      | some v => [v]
      | none => m.getAll k := by
  induction l using List.reverseRecOn with
  | nil => rfl
  | append_singleton l e ih =>
    rw [List.foldl_append, List.foldl_cons, List.foldl_nil, getAll_insert, last_concat]
    by_cases hk : k = e.1
    · simp [hk]
    · rw [if_neg hk, if_neg (Ne.symm hk)]
      exact ih

theorem extend_append {current : Option κ} {k : κ} (hc : current = some k) (vs : List ν)
    (rest : List (Option κ × ν)) :
    m.extend current (vs.map (none, ·) ++ rest) =
      (vs.foldl (fun m v => m.append k v) m).extend current rest := by
  induction vs generalizing m with
  | nil => rfl
  | cons v vs ih =>
    subst hc
    simp only [List.map_cons, List.cons_append, extend, List.foldl_cons]
    exact ih

theorem getAll_extend_groups {g : List (κ × List ν)} (h : (g.map Prod.fst).Nodup)
    (hne : ∀ e ∈ g, e.2 ≠ []) (current : Option κ) (k : κ) :
    (m.extend current (g.flatMap headed)).getAll k =
      if valuesOf k g = [] then m.getAll k else valuesOf k g := by
  induction g generalizing m current with
  | nil => simp [extend, valuesOf]
  | cons e g ih =>
    simp only [List.map_cons, List.nodup_cons] at h
    obtain ⟨v, vs, he⟩ := List.exists_cons_of_ne_nil (hne e List.mem_cons_self)
    have hgroup (k' : κ) :
        (vs.foldl (fun m v => m.append e.1 v) (m.insert e.1 v)).getAll k' =
          if k' = e.1 then e.2 else m.getAll k' := by
      have hfold := getAll_foldl_append (m := m.insert e.1 v) (vs.map (e.1, ·)) k'
      rw [List.foldl_map] at hfold
      rw [hfold, getAll_insert]
      by_cases hk : k' = e.1
      · simp [hk, he, values, List.filter_map, Function.comp_def]
      · simp [hk, Ne.symm hk, values, List.filter_map, Function.comp_def]
    have hstep : m.extend current ((e :: g).flatMap headed) =
        (vs.foldl (fun m v => m.append e.1 v) (m.insert e.1 v)).extend (some e.1)
          (g.flatMap headed) := by
      rw [List.flatMap_cons]
      simp only [headed, he, List.cons_append, extend]
      exact extend_append rfl vs _
    rw [hstep, ih h.2 (fun d hd => hne d (List.mem_cons_of_mem _ hd)), hgroup]
    by_cases hk : k = e.1
    · have hrest : valuesOf k g = [] := valuesOf_eq_nil (hk ▸ h.1)
      rw [hrest, if_pos rfl, if_pos hk, if_neg] <;> simp [valuesOf, hk, he]
    · have hcons : valuesOf k (e :: g) = valuesOf k g := by
        simp [valuesOf, Ne.symm hk]
      rw [hcons, if_neg hk]

/-- Extending by a whole multimap replaces the values of its keys and no others. -/
theorem getAll_extend (h : Grouped κ ν) (k : κ) :
    (m.extend none h.intoIter).getAll k =
      if h.getAll k = [] then m.getAll k else h.getAll k :=
  getAll_extend_groups h.distinct h.inhabited none k

end Grouped

/-! Collecting pairs into a map with one value for a key. -/

abbrev Unique (κ ν : Type*) := AList (fun _ : κ => ν)

def collect (l : List (κ × ν)) : Unique κ ν := l.foldl (fun m e => m.insert e.1 e.2) ∅

theorem lookup_collect (l : List (κ × ν)) (k : κ) : (collect l).lookup k = last k l := by
  induction l using List.reverseRecOn with
  | nil => simp [collect, last]
  | append_singleton l e ih =>
    rw [collect, List.foldl_append, List.foldl_cons, List.foldl_nil]
    rw [last_concat]
    by_cases hk : k = e.1
    · subst hk
      simp
    · rw [AList.lookup_insert_ne hk, if_neg (Ne.symm hk)]
      exact ih

theorem lookup_collect_iff {l : List (κ × ν)} (h : (l.map Prod.fst).Nodup) (k : κ) (v : ν) :
    (collect l).lookup k = some v ↔ (k, v) ∈ l := by
  rw [lookup_collect, ← mem_values, values_eq_last h, Option.mem_toList]

end Multimap
