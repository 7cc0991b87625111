import ChainSync.Fetch.Run
set_option autoImplicit false

/-!
Why a run may end in an error, and whom an error blames.
-/

namespace ChainSync

open Fetch

/-- A failure of this peer as the master, worth another try with a different one. -/
structure SyncError.Blames (peer : PeerId) (err : SyncError) : Prop where
  failure : err.isMasterFailure = true
  named : err.peer? = some peer

theorem SyncError.Blames.usable {peer : PeerId} {err : SyncError} (blamed : err.Blames peer) :
    err ≠ .noUsablePeers := by
  rintro rfl
  cases blamed.failure

namespace Fetch.Run

variable {σ τ : Type} [Workload τ]

/-- Why a run fails: it was given up, it waited too long, or its task finds an answer wrong. -/
inductive Failure (wrong : SyncError → Prop) (cancelled : Bool) (late : Prop) :
    SyncError → Prop where
  | cancelled (seen : cancelled = true) : Failure wrong cancelled late .cancelled
  | noUsablePeers (waited : late) : Failure wrong cancelled late .noUsablePeers
  | answer {err : SyncError} (h : wrong err) : Failure wrong cancelled late err

variable {wrong : SyncError → Prop} {cancelled : Bool} {late : Prop} {err : SyncError}

theorem turn_error {r : Run τ} {h : Hub σ}
    (failed : (r.turn h cancelled).2.2 = some (.error err)) : Failure wrong cancelled late err := by
  unfold turn at failed
  split at failed
  · cases failed
    exact .cancelled ‹_›
  · split at failed <;> cases failed

theorem catchUp_error {fuel : Nat} {r : Run τ} {h : Hub σ}
    (failed : (catchUp cancelled fuel r h).2.2 = some (.error err)) :
    Failure wrong cancelled late err := by
  induction fuel generalizing r h with
  | zero => cases failed
  | succ fuel ih =>
    unfold catchUp at failed
    split at failed
    · cases failed
    · rename_i event events _
      split at failed
      · rename_i heq
        refine turn_error (r := r.noteEvent event)
          (h := { h with peers := { h.peers with events } }) ?_
        rw [heq]
        exact failed
      · exact ih failed

theorem proceed_error {r : Run τ} {h : Hub σ}
    (failed : (r.proceed h cancelled).2.2 = some (.error err)) :
    Failure wrong cancelled late err := by
  unfold proceed at failed
  split at failed
  · rename_i heq
    refine turn_error (r := r) (h := h) ?_
    rw [heq]
    exact failed
  · exact catchUp_error failed

theorem wake_error {r : Run τ} {h : Hub σ}
    (failed : (r.wake h cancelled).2.2 = some (.error err)) : Failure wrong cancelled late err := by
  unfold wake at failed
  split at failed
  · cases failed
    exact .cancelled ‹_›
  · exact catchUp_error failed

theorem start_error {task : τ} {h : Hub σ}
    (failed : (start task h cancelled).2.2 = some (.error err)) :
    Failure wrong cancelled late err :=
  proceed_error failed

variable [Receiver σ τ]

theorem conclude_error {r : Run τ} {h : Hub σ} {e : Errand} {ending : Ending}
    (failed : (r.conclude h e ending).2.2 = .error err) :
    ∃ payload, (Receiver.deliver r.task h.board e.id e.call.peer payload).2.2 = .error err := by
  cases ending with
  | answered payload =>
    refine ⟨payload, ?_⟩
    simp only [conclude] at failed
    generalize Receiver.deliver r.task h.board e.id e.call.peer payload = out at failed ⊢
    obtain ⟨task, board, result⟩ := out
    cases result with
    | error _ =>
      cases failed
      rfl
    | ok _ => cases failed
  | timedOut => cases failed
  | failed _ => cases failed

theorem step_error {r : Run τ} {h : Hub σ} {signal : Signal} (waited : signal = .deadline → late)
    (judged : ∀ (board : Board σ) (id : RequestId) (peer : PeerId) (payload : Payload)
      (err : SyncError),
      (Receiver.deliver r.task board id peer payload).2.2 = .error err → wrong err)
    (failed : (r.step h cancelled signal).2.2 = some (.error err)) :
    Failure wrong cancelled late err := by
  cases signal with
  | woken => exact wake_error failed
  | deadline =>
    cases failed
    exact .noUsablePeers (waited rfl)
  | ended ticket ending =>
    simp only [step] at failed
    split at failed
    · cases failed
    · rename_i e _
      split at failed
      · rename_i heq
        cases failed
        obtain ⟨payload, fault⟩ := conclude_error (by rw [heq])
        exact .answer (judged _ _ _ _ _ fault)
      · exact proceed_error failed

end Fetch.Run

end ChainSync
