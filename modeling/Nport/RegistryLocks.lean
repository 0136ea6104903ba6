import Nport.RankedLocks

/-! The locks that the operations of the registry and of its clients take, with tokio's fair
RwLock and Mutex: a Mutex is one that is only taken exclusively. ws_sender and ws_receiver, which
are held while the network is waited for, and port_writers, which is held while a queue is, are
not among them. -/
namespace RegistryLocks

open GuardedMachine
open RankedLocks

inductive Lock (C : Type*) where
  | claimedHttpHostnames
  | clients
  | hostnames (c : C)
  | httpRequests (c : C)
  | connectRequests (c : C)
  | openPorts (c : C)
  deriving DecidableEq, Repr

variable {C : Type*}

def brief (lock : Lock C) (mode : Mode) : List (Act (Lock C)) :=
  [.acquire lock mode, .release lock]

inductive Operation (C : Type*) where
  | register
  | deregister (client : C) (found : Bool)
  | claimHttpHostname (client : C) (inserted : Bool)
  | releaseHttpHostname (client : C) (removed : Bool)
  /-- with the clients whose hostnames are looked at -/
  | getByHttpHostname (visited : List C)
  | registerHttpRequest (client : C)
  | sendHttpResponse (client : C)
  | registerConnectRequest (client : C)
  | sendConnectedResponse (client : C)
  | registerPort (client : C)

/-- The guards of an operation in the order they come and go. -/
def Operation.locks : Operation C → List (Act (Lock C))
  | .register => brief .clients .exclusive
  | .deregister _ false => brief .clients .exclusive
  | .deregister client true =>
    [.acquire .clients .exclusive, .acquire .claimedHttpHostnames .exclusive,
      .acquire (.hostnames client) .shared, .release (.hostnames client),
      .release .claimedHttpHostnames, .release .clients]
  | .claimHttpHostname _ false => brief .claimedHttpHostnames .exclusive
  | .claimHttpHostname client true =>
    brief .claimedHttpHostnames .exclusive ++ brief (.hostnames client) .exclusive
  | .releaseHttpHostname client false => brief (.hostnames client) .exclusive
  | .releaseHttpHostname client true =>
    brief (.hostnames client) .exclusive ++ brief .claimedHttpHostnames .exclusive
  | .getByHttpHostname visited =>
    .acquire .clients .shared ::
      (visited.flatMap (fun client => brief (.hostnames client) .shared) ++ [.release .clients])
  | .registerHttpRequest client => brief (.httpRequests client) .exclusive
  | .sendHttpResponse client => brief (.httpRequests client) .exclusive
  | .registerConnectRequest client => brief (.connectRequests client) .exclusive
  | .sendConnectedResponse client => brief (.connectRequests client) .exclusive
  | .registerPort client => brief (.openPorts client) .exclusive

/-- deregister takes claimed_http_hostnames under clients, and a client's hostnames under both. -/
def rank : Lock C → ℕ
  | .clients => 0
  | .claimedHttpHostnames => 1
  | _ => 2

theorem rank_le (l : Lock C) : rank l ≤ 2 := by
  cases l <;> simp [rank]

variable [DecidableEq C]

theorem ordered_brief {lock : Lock C} {mode : Mode} {held : List (Lock C × Mode)}
    {rest : List (Act (Lock C))} (hrank : ∀ x ∈ held, rank x.1 < rank lock)
    (hrest : Ordered rank held rest) : Ordered rank held (brief lock mode ++ rest) := by
  have hafter : (Act.release lock).after ((Act.acquire lock mode).after held) = held := by
    have hne : ∀ x ∈ held, x.1 ≠ lock := by
      rintro x hx rfl
      exact Nat.lt_irrefl _ (hrank x hx)
    simpa [Act.after] using hne
  refine ⟨hrank, trivial, ?_⟩
  rw [hafter]
  exact hrest

theorem ordered_locks (operation : Operation C) : Ordered rank [] operation.locks := by
  have hbrief (lock : Lock C) (mode : Mode) : Ordered rank [] (brief lock mode) := by
    have hlast : Ordered rank [] (brief lock mode ++ []) := ordered_brief (by simp) rfl
    simpa using hlast
  cases operation with
  | deregister client found =>
    cases found with
    | false => exact hbrief _ _
    | true => simp [Operation.locks, Ordered, Act.Allowed, Act.after, rank]
  | claimHttpHostname client inserted =>
    cases inserted with
    | false => exact hbrief _ _
    | true => exact (hbrief _ _).append (hbrief _ _)
  | releaseHttpHostname client removed =>
    cases removed with
    | false => exact hbrief _ _
    | true => exact (hbrief _ _).append (hbrief _ _)
  | getByHttpHostname visited =>
    refine ⟨fun _ hx => absurd hx List.not_mem_nil, ?_⟩
    induction visited with
    | nil => exact ⟨trivial, rfl⟩
    | cons client visited ih =>
      rw [List.flatMap_cons, List.append_assoc]
      exact ordered_brief (by simp [Act.after, rank]) ih
  | _ => exact hbrief _ _

/-- Whatever operations any tasks do one after the other, with any of them dropped anywhere: an
exclusive lock is held alone, no task is stuck, there are two steps for each lock taken or given
back at most, and when none is left every operation has come to its end. -/
theorem operations_finish {T : Type*} [DecidableEq T] [Fintype T]
    (program : T → List (Operation C)) {tr : List (State T (Lock C) × Event T)}
    {s : State T (Lock C)}
    (h : Run (locks fun t => (program t).flatMap Operation.locks) tr s) :
    (∀ t u lock mode, (lock, Mode.exclusive) ∈ s.held t → (lock, mode) ∈ s.held u → t = u) ∧
    (∀ t, s.script t ≠ [] → ∃ e : Event T, e.Proceeds ∧ Enabled s e) ∧
    tr.length ≤ 2 * ∑ t, ((program t).flatMap Operation.locks).length ∧
    ((∀ e : Event T, e.Proceeds → ¬ Enabled s e) → ∀ t, s.script t = [] ∧ s.held t = []) := by
  have hordered (t : T) : Ordered rank [] ((program t).flatMap Operation.locks) :=
    ordered_flatMap ordered_locks (program t)
  have hinv := run_invariant hordered h
  exact ⟨hinv.exclusion, fun _ => moves_of_unfinished hinv rank_le, length_le hordered h,
    finished hordered rank_le h⟩

def lookupAndLeave : Bool → List (Operation Unit)
  | true => [.getByHttpHostname [()]]
  | false => [.deregister () true]

def lookupMachine : Machine (State Bool (Lock Unit)) (Event Bool) :=
  locks fun t => (lookupAndLeave t).flatMap Operation.locks

def lookupFirst : List (Event Bool) := [.join true, .grant true, .join false]

theorem lookupFirst_accepted : Accepts lookupMachine lookupMachine.initial lookupFirst := by
  refine ⟨⟨_, _, _, rfl, List.not_mem_nil⟩, ⟨_, _, _, rfl, rfl, fun _ => List.not_mem_nil⟩,
    ⟨_, _, _, rfl, by decide⟩, trivial⟩

theorem operations_finish_lookup :
    ∃ e : Event Bool, e.Proceeds ∧
      Enabled (replay lookupMachine lookupMachine.initial lookupFirst) e := by
  have hrun : Run lookupMachine _ _ := path_of_accepts lookupFirst_accepted
  refine (operations_finish lookupAndLeave hrun).2.1 false ?_
  intro hnil
  cases hnil

end RegistryLocks
