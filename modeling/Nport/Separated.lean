import Mathlib.Data.List.DropRight

/-! Trimming a list on both sides, and cutting it at a separator that is trimmed away
nowhere: the trimmed fields are the same whether or not the whole is trimmed first. -/
namespace Separated

variable {α : Type*}

def trim (blank : α → Bool) (l : List α) : List α := (l.dropWhile blank).rdropWhile blank

def trimmedFields [DecidableEq α] (blank : α → Bool) (sep : α) (l : List α) : List (List α) :=
  (l.splitOn sep).map (trim blank)

variable {blank : α → Bool}

@[simp] theorem trim_nil : trim blank ([] : List α) = [] := rfl

theorem trim_cons {x : α} (hx : blank x = true) (l : List α) :
    trim blank (x :: l) = trim blank l := by
  simp [trim, hx]

theorem trim_concat {x : α} (hx : blank x = true) (l : List α) :
    trim blank (l ++ [x]) = trim blank l := by
  by_cases hl : ∀ y ∈ l, blank y = true
  · have hall : (l ++ [x]).dropWhile blank = [] := by
      apply List.dropWhile_eq_nil_iff.mpr
      intro y hy
      rcases List.mem_append.mp hy with hy | hy
      · exact hl y hy
      · rw [List.mem_singleton.mp hy]
        exact hx
    rw [trim, trim, hall, List.dropWhile_eq_nil_iff.mpr hl]
  · have hne : l.dropWhile blank ≠ [] := mt List.dropWhile_eq_nil_iff.mp hl
    have hpush : (l ++ [x]).dropWhile blank = l.dropWhile blank ++ [x] := by
      rw [List.dropWhile_append]
      simp [hne]
    rw [trim, trim, hpush, List.rdropWhile_concat_pos _ _ _ hx]

theorem cut_unique {sep : α} {before before' after after' : List α} (hb : sep ∉ before)
    (hb' : sep ∉ before') (h : before ++ sep :: after = before' ++ sep :: after') :
    before = before' ∧ after = after' := by
  induction before generalizing before' with
  | nil =>
    cases before' with
    | nil => simpa using h
    | cons x rest =>
      simp only [List.nil_append, List.cons_append, List.cons.injEq] at h
      exact absurd List.mem_cons_self (h.1 ▸ hb')
  | cons x rest ih =>
    cases before' with
    | nil =>
      simp only [List.nil_append, List.cons_append, List.cons.injEq] at h
      exact absurd List.mem_cons_self (h.1 ▸ hb)
    | cons y rest' =>
      simp only [List.cons_append, List.cons.injEq] at h
      obtain ⟨rfl, h⟩ := h
      obtain ⟨rfl, rfl⟩ := ih (fun hm => hb (List.mem_cons_of_mem _ hm))
        (fun hm => hb' (List.mem_cons_of_mem _ hm)) h
      exact ⟨rfl, rfl⟩

section Fields

variable [DecidableEq α] {sep : α}

theorem trimmedFields_cons {x : α} (hx : blank x = true) (hsep : blank sep = false)
    (l : List α) : trimmedFields blank sep (x :: l) = trimmedFields blank sep l := by
  have hne : x ≠ sep := by
    rintro rfl
    simp [hsep] at hx
  rw [trimmedFields, trimmedFields, List.splitOn_cons_eq_if_modifyHead]
  obtain ⟨field, rest, hl⟩ := List.exists_cons_of_ne_nil (List.splitOn_ne_nil sep l)
  simp [hne, hl, trim_cons hx]

theorem splitOn_concat {x : α} (hx : x ≠ sep) (l : List α) :
    ∃ init last, l.splitOn sep = init ++ [last] ∧
      (l ++ [x]).splitOn sep = init ++ [last ++ [x]] := by
  induction l with
  | nil => exact ⟨[], [], by simp, by simp [List.splitOn_cons_eq_if_modifyHead, hx]⟩
  | cons y l ih =>
    obtain ⟨init, last, hl, hlx⟩ := ih
    by_cases hy : y = sep
    · refine ⟨[] :: init, last, ?_, ?_⟩
      · simp [List.splitOn_cons_eq_if_modifyHead, hy, hl]
      · simp [List.splitOn_cons_eq_if_modifyHead, hy, hlx]
    · cases init with
      | nil =>
        refine ⟨[], y :: last, ?_, ?_⟩
        · simp [List.splitOn_cons_eq_if_modifyHead, hy, hl]
        · simp [List.splitOn_cons_eq_if_modifyHead, hy, hlx]
      | cons first init =>
        refine ⟨(y :: first) :: init, last, ?_, ?_⟩
        · simp [List.splitOn_cons_eq_if_modifyHead, hy, hl]
        · simp [List.splitOn_cons_eq_if_modifyHead, hy, hlx]

theorem trimmedFields_concat {x : α} (hx : blank x = true) (hsep : blank sep = false)
    (l : List α) : trimmedFields blank sep (l ++ [x]) = trimmedFields blank sep l := by
  have hne : x ≠ sep := by
    rintro rfl
    simp [hsep] at hx
  obtain ⟨init, last, hl, hlx⟩ := splitOn_concat hne l
  rw [trimmedFields, trimmedFields, hl, hlx]
  simp [trim_concat hx]

theorem trimmedFields_dropWhile (hsep : blank sep = false) (l : List α) :
    trimmedFields blank sep (l.dropWhile blank) = trimmedFields blank sep l := by
  induction l with
  | nil => rfl
  | cons x l ih =>
    by_cases hx : blank x = true
    · rw [List.dropWhile_cons_of_pos hx, ih, trimmedFields_cons hx hsep]
    · rw [List.dropWhile_cons_of_neg hx]

theorem trimmedFields_rdropWhile (hsep : blank sep = false) (l : List α) :
    trimmedFields blank sep (l.rdropWhile blank) = trimmedFields blank sep l := by
  induction l using List.reverseRecOn with
  | nil => simp
  | append_singleton l x ih =>
    by_cases hx : blank x = true
    · rw [List.rdropWhile_concat_pos _ _ _ hx, ih, trimmedFields_concat hx hsep]
    · rw [List.rdropWhile_concat_neg _ _ _ hx]

theorem trimmedFields_trim (hsep : blank sep = false) (l : List α) :
    trimmedFields blank sep (trim blank l) = trimmedFields blank sep l := by
  rw [trim, trimmedFields_rdropWhile hsep, trimmedFields_dropWhile hsep]

end Fields

theorem not_mem_of_mem_splitOn [DecidableEq α] {sep : α} {l piece : List α}
    (h : piece ∈ l.splitOn sep) : sep ∉ piece := by
  induction l generalizing piece with
  | nil =>
    rw [List.splitOn_nil, List.mem_singleton] at h
    simp [h]
  | cons x l ih =>
    rw [List.splitOn_cons_eq_if_modifyHead] at h
    by_cases hx : x = sep
    · simp only [hx, beq_self_eq_true, if_true, List.mem_cons] at h
      rcases h with rfl | h
      · simp
      · exact ih h
    · obtain ⟨first, rest, hl⟩ := List.exists_cons_of_ne_nil (List.splitOn_ne_nil sep l)
      rw [hl] at h ih
      simp only [beq_iff_eq, hx, if_false, List.modifyHead_cons, List.mem_cons] at h
      rcases h with rfl | h
      · have hfirst := ih List.mem_cons_self
        simp [Ne.symm hx, hfirst]
      · exact ih (List.mem_cons_of_mem _ h)

theorem forall_fields_iff [DecidableEq α] {sep : α} {p : α → Prop} (hp : p sep) (l : List α) :
    (∀ x ∈ l, p x) ↔ ∀ field ∈ l.splitOn sep, ∀ x ∈ field, p x := by
  induction l with
  | nil => simp
  | cons x l ih =>
    rw [List.splitOn_cons_eq_if_modifyHead]
    by_cases hx : x = sep
    · simp [hx, hp, ih]
    · obtain ⟨first, rest, hl⟩ := List.exists_cons_of_ne_nil (List.splitOn_ne_nil sep l)
      rw [hl] at ih
      simp [hx, hl, ih, or_imp, forall_and, and_assoc]

/-! Pieces that were put together with a separator between them. -/

inductive Joined (sep : α) (P : List α → Prop) : List α → Prop where
  | one {piece} : P piece → Joined sep P piece
  | cons {piece rest} : P piece → Joined sep P rest → Joined sep P (piece ++ sep :: rest)

theorem Joined.forall_mem {sep : α} {P : List α → Prop} {p : α → Prop} {l : List α}
    (h : Joined sep P l) (hsep : p sep) (hP : ∀ piece, P piece → ∀ x ∈ piece, p x) :
    ∀ x ∈ l, p x := by
  induction h with
  | one hp => exact hP _ hp
  | cons hp _ ih => simpa [hsep, or_imp, forall_and] using ⟨hP _ hp, ih⟩

theorem joined_intercalate (sep : α) {P : List α → Prop} {pieces : List (List α)}
    (hne : pieces ≠ []) (hP : ∀ piece ∈ pieces, P piece) :
    Joined sep P ([sep].intercalate pieces) := by
  induction pieces with
  | nil => exact absurd rfl hne
  | cons piece pieces ih =>
    have hfirst := hP piece List.mem_cons_self
    cases pieces with
    | nil => simpa using Joined.one hfirst
    | cons second pieces =>
      have hrest := ih (by simp) fun l hl => hP l (List.mem_cons_of_mem _ hl)
      simpa using Joined.cons hfirst hrest

theorem length_le_count_intercalate [DecidableEq α] (sep : α) (pieces : List (List α)) :
    pieces.length ≤ ([sep].intercalate pieces).count sep + 1 := by
  induction pieces with
  | nil => simp
  | cons piece pieces ih =>
    cases pieces with
    | nil => simp
    | cons second pieces =>
      have hcount : ([sep].intercalate (piece :: second :: pieces)).count sep =
          piece.count sep + (([sep].intercalate (second :: pieces)).count sep + 1) := by simp
      rw [List.length_cons]
      omega

theorem joined_iff [DecidableEq α] {sep : α} {P : List α → Prop}
    (hsep : ∀ piece, P piece → sep ∉ piece) {l : List α} :
    Joined sep P l ↔ ∀ piece ∈ l.splitOn sep, P piece := by
  constructor
  · intro h
    induction h with
    | one hp =>
      rw [List.splitOn_eq_singleton (hsep _ hp)]
      simpa using hp
    | cons hp _ ih =>
      rw [List.splitOn_append_cons_self_of_not_mem (hsep _ hp)]
      simpa using ⟨hp, ih⟩
  · intro h
    have hjoined := joined_intercalate sep (List.splitOn_ne_nil sep l) h
    rwa [List.intercalate_splitOn] at hjoined

end Separated
