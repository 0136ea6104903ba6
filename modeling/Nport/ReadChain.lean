import Mathlib.Data.List.Infix

/-! A reader takes something off the front of a list and leaves the rest. Lists that consist of
pieces one behind the other, each read off the front of what is left, and readers that look no
further than their piece. -/
namespace ReadChain

variable {α β ε : Type*} {read : List α → Except ε (List α × β)}

inductive Chain (read : List α → Except ε (List α × β)) : List (List α × β) → List α → Prop where
  | one {piece b} : read piece = .ok ([], b) → Chain read [(piece, b)] piece
  | cons {piece b rest pieces} : read (piece ++ rest) = .ok (rest, b) → Chain read pieces rest →
      Chain read ((piece, b) :: pieces) (piece ++ rest)

def Shortens (read : List α → Except ε (List α × β)) : Prop :=
  ∀ l rest b, read l = .ok (rest, b) → rest <:+ l ∧ rest.length < l.length

/-- What a piece is read as does not depend on what comes behind it. -/
def SelfDelimiting (read : List α → Except ε (List α × β)) : Prop :=
  ∀ piece rest b, read (piece ++ rest) = .ok (rest, b) ↔ read piece = .ok ([], b)

theorem Chain.pieces_ne_nil {pieces : List (List α × β)} {l : List α}
    (h : Chain read pieces l) : pieces ≠ [] := by
  cases h <;> simp

theorem Chain.flatten {pieces : List (List α × β)} {l : List α} (h : Chain read pieces l) :
    (pieces.map Prod.fst).flatten = l := by
  induction h with
  | one _ => simp
  | cons _ _ ih => simp [ih]

section Shortens

variable {pieces : List (List α × β)} {l : List α}

theorem Chain.ne_nil (hread : Shortens read) (h : Chain read pieces l) : l ≠ [] := by
  intro hnil
  cases h with
  | one hp =>
    have hlt := (hread _ _ _ hp).2
    simp [hnil] at hlt
  | cons hp _ =>
    have hlt := (hread _ _ _ hp).2
    simp [hnil] at hlt

theorem Chain.unique (hread : Shortens read) {pieces' : List (List α × β)}
    (h : Chain read pieces l) (h' : Chain read pieces' l) : pieces = pieces' := by
  induction h generalizing pieces' with
  | @one piece b hp =>
    cases h' with
    | one hp' =>
      rw [hp] at hp'
      cases hp'
      rfl
    | cons hp' hrest =>
      rw [hp] at hp'
      cases hp'
      exact absurd rfl (hrest.ne_nil hread)
  | @cons piece b rest pieces hp hrest ih =>
    generalize hl : piece ++ rest = l at h'
    cases h' with
    | one hp' =>
      rw [← hl, hp] at hp'
      cases hp'
      exact absurd rfl (hrest.ne_nil hread)
    | cons hp' hrest' =>
      have hread' := hp'
      rw [← hl, hp] at hread'
      cases hread'
      rw [ih hrest', List.append_cancel_right hl]

end Shortens

/-- Where the reader looks no further than its piece, the chains are the lists of pieces each of
which is read on its own. -/
theorem chain_iff (hread : SelfDelimiting read) {pieces : List (List α × β)} {l : List α} :
    Chain read pieces l ↔ pieces ≠ [] ∧ l = (pieces.map Prod.fst).flatten ∧
      ∀ p ∈ pieces, read p.1 = .ok ([], p.2) := by
  constructor
  · intro h
    refine ⟨h.pieces_ne_nil, h.flatten.symm, ?_⟩
    induction h with
    | one hp => simpa using hp
    | cons hp _ ih => simpa using ⟨(hread _ _ _).mp hp, fun a b hm => ih (a, b) hm⟩
  · rintro ⟨hne, rfl, hall⟩
    induction pieces with
    | nil => exact absurd rfl hne
    | cons p pieces ih =>
      have hp := hall p List.mem_cons_self
      cases pieces with
      | nil => simpa using Chain.one hp
      | cons q pieces =>
        have hrest := ih (by simp) fun p hm => hall p (List.mem_cons_of_mem _ hm)
        exact .cons ((hread _ _ _).mpr hp) hrest

end ReadChain
