import Mathlib.Data.List.Basic

/-! One direction of a first-in first-out channel: what was sent, what has arrived and
what is flying in between. The sending side may break (later sends are lost) and the
receiving side may shut (nothing arrives any more). No message is assumed to arrive. -/
namespace FifoPipe

variable {α : Type*}

structure Pipe (sent arrived flying : List α) (intact shut : Prop) : Prop where
  arrived_prefix : arrived <+: sent
  ordered : ¬ shut → arrived ++ flying <+: sent
  complete : ¬ shut → intact → arrived ++ flying = sent

variable {sent arrived arrived' flying flying' : List α} {intact intact' shut shut' : Prop}

theorem Pipe.empty : Pipe ([] : List α) [] [] intact shut := ⟨by simp, by simp, by simp⟩

theorem Pipe.send (h : Pipe sent arrived flying intact shut) (ok : intact) (a : α) :
    Pipe (sent ++ [a]) arrived (flying ++ [a]) intact' shut := by
  have all : ¬ shut → arrived ++ (flying ++ [a]) = sent ++ [a] := by
    intro hs
    rw [← List.append_assoc, h.complete hs ok]
  refine ⟨h.arrived_prefix.trans (List.prefix_append _ _), ?_, fun hs _ => all hs⟩
  intro hs
  exact all hs ▸ List.prefix_rfl

/-- A send that gets nowhere, on a side that is broken from then on. -/
theorem Pipe.lose (h : Pipe sent arrived flying intact shut) (broken : ¬ intact') (a : α) :
    Pipe (sent ++ [a]) arrived flying intact' shut :=
  ⟨h.arrived_prefix.trans (List.prefix_append _ _),
    fun hs => (h.ordered hs).trans (List.prefix_append _ _), fun _ hi => absurd hi broken⟩

theorem Pipe.move (h : Pipe sent arrived flying intact shut)
    (same : arrived' ++ flying' = arrived ++ flying) (still : shut → arrived' = arrived)
    (mono : shut → shut') : Pipe sent arrived' flying' intact shut' := by
  refine ⟨?_, ?_, ?_⟩
  · by_cases hs : shut
    · rw [still hs]; exact h.arrived_prefix
    · exact (List.prefix_append _ _).trans (same ▸ h.ordered hs)
  · intro hs
    rw [same]
    exact h.ordered fun k => hs (mono k)
  · intro hs hi
    rw [same]
    exact h.complete (fun k => hs (mono k)) hi

theorem Pipe.close (h : Pipe sent arrived flying intact shut) (closed : shut') :
    Pipe sent arrived flying' intact' shut' :=
  ⟨h.arrived_prefix, fun hs => absurd closed hs, fun hs => absurd closed hs⟩

theorem Pipe.weaken (h : Pipe sent arrived flying intact shut) (hi : intact' → intact) :
    Pipe sent arrived flying intact' shut :=
  ⟨h.arrived_prefix, h.ordered, fun hs k => h.complete hs (hi k)⟩

theorem Pipe.mem_or (h : Pipe sent arrived flying intact shut) (hs : ¬ shut) (hi : intact)
    {a : α} (ha : a ∈ sent) : a ∈ arrived ∨ a ∈ flying := by
  rw [← h.complete hs hi] at ha
  exact List.mem_append.mp ha

theorem prefix_eq_of_last_mem {pre : List α} {last : α} (h : arrived <+: pre ++ [last])
    (mem : last ∈ arrived) (only : last ∉ pre) : arrived = pre ++ [last] := by
  rcases List.prefix_concat_iff.mp h with h | h
  · exact h
  · exact absurd (h.subset mem) only

end FifoPipe
