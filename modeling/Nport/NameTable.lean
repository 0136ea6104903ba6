import Nport.Simulation
import Mathlib.Logic.Function.Basic

/-! A table of names with at most one owner each. Owners ask for a name, give it back and leave,
each in one step, and are told what came of it. -/
namespace NameTable

open GuardedMachine
open Simulation

inductive Event (C α : Type*) where
  | claim (c : C) (name : α)
  | release (c : C) (name : α)
  | leave (c : C)
  deriving DecidableEq, Repr

inductive Answer (C α : Type*) where
  | claimed (c : C) (name : α) (granted : Bool)
  | released (c : C) (name : α) (ok : Bool)
  | left (c : C)
  deriving DecidableEq, Repr

variable {C α : Type*} [DecidableEq C] [DecidableEq α]

def next (owner : α → Option C) : Event C α → α → Option C
  | .claim c name => if owner name = none then Function.update owner name (some c) else owner
  | .release c name => if owner name = some c then Function.update owner name none else owner
  | .leave c => fun name => if owner name = some c then none else owner name

def answer (owner : α → Option C) : Event C α → Option (Answer C α)
  | .claim c name => some (.claimed c name (decide (owner name = none)))
  | .release c name => some (.released c name (decide (owner name = some c)))
  | .leave c => some (.left c)

def table (C α : Type*) [DecidableEq C] [DecidableEq α] : Machine (α → Option C) (Event C α) :=
  ⟨fun _ => none, fun _ _ => True, next⟩

/-! The answers alone tell who owns a name. -/

def Answer.after (owner : Option C) (name : α) : Answer C α → Option C
  | .claimed c other true => if other = name then some c else owner
  | .released _ other true => if other = name then none else owner
  | .left c => if owner = some c then none else owner
  | _ => owner

def ownerAfter (answers : List (Answer C α)) (name : α) : Option C :=
  answers.foldl (fun owner a => a.after owner name) none

/-- A claim is granted when nobody owns the name, and a release when its owner asks for it. -/
def Fair (before : List (Answer C α)) : Answer C α → Prop
  | .claimed _ name granted => granted = true ↔ ownerAfter before name = none
  | .released c name ok => ok = true ↔ ownerAfter before name = some c
  | .left _ => True

theorem ownerAfter_concat (answers : List (Answer C α)) (a : Answer C α) (name : α) :
    ownerAfter (answers ++ [a]) name = a.after (ownerAfter answers name) name := by
  simp [ownerAfter]

theorem answers_fair {tr : List ((α → Option C) × Event C α)} {owner : α → Option C}
    (h : Run (table C α) tr owner) :
    (∀ name, ownerAfter (shown answer tr) name = owner name) ∧ Each Fair (shown answer tr) := by
  induction h with
  | refl => exact ⟨fun _ => rfl, each_nil⟩
  | @tail tr owner e _ _ ih =>
    obtain ⟨howner, hfair⟩ := ih
    rw [shown_concat]
    cases e with
    | claim c name =>
      refine ⟨fun other => ?_, each_concat.mpr ⟨hfair, ?_⟩⟩
      · simp only [answer, Option.toList_some, ownerAfter_concat, howner, table, next]
        by_cases hfree : owner name = none
        · by_cases heq : name = other
          · subst other
            simp [hfree, Answer.after]
          · simp [hfree, heq, Answer.after, Ne.symm heq]
        · simp [hfree, Answer.after]
      · simp [Fair, howner]
    | release c name =>
      refine ⟨fun other => ?_, each_concat.mpr ⟨hfair, ?_⟩⟩
      · simp only [answer, Option.toList_some, ownerAfter_concat, howner, table, next]
        by_cases hown : owner name = some c
        · by_cases heq : name = other
          · subst other
            simp [hown, Answer.after]
          · simp [hown, heq, Answer.after, Ne.symm heq]
        · simp [hown, Answer.after]
      · simp [Fair, howner]
    | leave c =>
      refine ⟨fun other => ?_, each_concat.mpr ⟨hfair, trivial⟩⟩
      simp only [answer, Option.toList_some, ownerAfter_concat, howner, table, next, Answer.after]

end NameTable
