import ChainSync.Fetch.Workload
set_option autoImplicit false

/-!
A task under arbitrary calls: whatever peers ask for, answer, lose or leave behind, in any order.
-/

namespace ChainSync.Fetch

/-- A task with the board that it reports to. An error ends the fetch that the task belongs to;
the desk only remembers it, and what the task would do afterwards is still defined. -/
structure Desk (σ τ : Type) where
  task : τ
  board : Board σ
  error : Option SyncError := none

inductive Move where
  | reserve (peer : PeerId) (capacity : Nat) (live : List PeerId)
  | deliver (id : RequestId) (peer : PeerId) (payload : Payload)
  | fail (id : RequestId)
  | failPeer (peer : PeerId)

def Move.payload? : Move → Option Payload
  | .deliver _ _ payload => some payload
  | _ => none

/-- Everything that peers sent, right or wrong, asked for or not. -/
def received (moves : List Move) : List Payload := moves.filterMap Move.payload?

namespace Desk

variable {σ τ : Type} [Workload τ] [Receiver σ τ]

def apply (d : Desk σ τ) : Move → Desk σ τ
  | .reserve peer capacity live =>
    match Workload.reserve d.task peer capacity live with
    | none => d
    | some (_, task) => { d with task }
  | .deliver id peer payload =>
    match Receiver.deliver d.task d.board id peer payload with
    | (task, board, .ok _) => { d with task, board }
    | (task, board, .error err) => ⟨task, board, some err⟩
  | .fail id => { d with task := (Workload.fail d.task id).2 }
  | .failPeer peer => { d with task := (Workload.failPeer d.task peer).2 }

def run (d : Desk σ τ) (moves : List Move) : Desk σ τ := moves.foldl apply d

theorem run_concat (d : Desk σ τ) (moves : List Move) (last : Move) :
    d.run (moves ++ [last]) = (d.run moves).apply last := by
  rw [run, List.foldl_append]
  rfl

/-- What calls show, one after the other. -/
def history {β : Type} (look : Desk σ τ → Move → List β) : Desk σ τ → List Move → List β
  | _, [] => []
  | d, m :: moves => look d m ++ history look (d.apply m) moves

theorem run_invariant {P : Desk σ τ → Prop} {d : Desk σ τ} {moves : List Move} (start : P d)
    (step : ∀ d, ∀ m ∈ moves, P d → P (d.apply m)) : P (d.run moves) := by
  induction moves generalizing d with
  | nil => exact start
  | cons m moves ih =>
    exact ih (step d m (List.mem_cons_self ..) start) fun d m hm =>
      step d m (List.mem_cons_of_mem _ hm)

theorem error_of_apply {d : Desk σ τ} {m : Move} (h : (d.apply m).error = none) :
    d.error = none := by
  cases m with
  | reserve peer capacity live =>
    simp only [apply] at h
    split at h <;> exact h
  | deliver id peer payload =>
    simp only [apply] at h
    split at h
    · exact h
    · simp at h
  | fail id => exact h
  | failPeer peer => exact h

theorem error_of_run {d : Desk σ τ} {moves : List Move} (h : (d.run moves).error = none) :
    d.error = none := by
  induction moves generalizing d with
  | nil => exact h
  | cons m moves ih => exact error_of_apply (ih h)

/-- While no answer has ended the fetch, none of the calls before did. -/
theorem run_ok_invariant {P : Desk σ τ → Prop} {d : Desk σ τ} {moves : List Move} (start : P d)
    (step : ∀ d, ∀ m ∈ moves, P d → (d.apply m).error = none → P (d.apply m))
    (ok : (d.run moves).error = none) : P (d.run moves) := by
  induction moves generalizing d with
  | nil => exact start
  | cons m moves ih =>
    exact ih (step d m (List.mem_cons_self ..) start (error_of_run ok))
      (fun d m hm => step d m (List.mem_cons_of_mem _ hm)) ok

end Desk
end ChainSync.Fetch
