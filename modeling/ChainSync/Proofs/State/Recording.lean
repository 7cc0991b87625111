import ChainSync.Proofs.Fetch.Desk
import ChainSync.Proofs.State.Store
import ChainSync.State.Download
set_option autoImplicit false

/-!
Remembering what was committed changes nothing: a download does the same with the database alone.
-/

namespace ChainSync.StateDownload

open Fetch

variable {σ : Type} [NodeStore σ]

theorem link_recorder (d : StateDownload) (r : Recorder σ) (h : Hash) (cs : List Hash) :
    d.link r h cs = d.link r.store h cs := by
  induction cs generalizing d with
  | nil => rfl
  | cons c cs ih =>
    have hknown : d.isKnown r c = d.isKnown r.store c := rfl
    simp only [link, ih, hknown]

/-- The outcome of a step without the record. -/
def forget {α β : Type} (x : α × Recorder σ × β) : α × σ × β := (x.1, x.2.1.store, x.2.2)

theorem forget_flush (d : StateDownload) (r : Recorder σ) :
    forget (d.flush r) = d.flush r.store := by
  have hcommit : NodeStore.commitNodes r d.membatch =
      (⟨(NodeStore.commitNodes r.store d.membatch).1, r.given ++ [(r.store, d.membatch)]⟩,
        (NodeStore.commitNodes r.store d.membatch).2) := rfl
  simp only [flush, hcommit]
  split
  · rfl
  · cases NodeStore.commitNodes r.store d.membatch with
    | mk s outcome => cases outcome <;> rfl

theorem forget_commit (d : StateDownload) (r : Recorder σ) (h : Hash) (data : Bytes) :
    forget (d.commit r h data) = d.commit r.store h data := by
  simp only [commit]
  split
  · exact forget_flush ..
  · rfl

theorem forget_process (d : StateDownload) (r : Recorder σ) (h : Hash) (data : Bytes) :
    forget (d.process r h data) = d.process r.store h data := by
  have hchildren : NodeStore.childHashes r h data = NodeStore.childHashes r.store h data := rfl
  simp only [process, hchildren, link_recorder]
  cases NodeStore.childHashes r.store h data with
  | error err => rfl
  | ok cs =>
    dsimp only
    cases d.link r.store h cs with
    | mk d' outcome =>
      match outcome with
      | .error err => rfl
      | .ok 0 => exact forget_commit ..
      | .ok (n + 1) => rfl

theorem forget_takeIn (d : StateDownload) (r : Recorder σ) (outstanding : List Hash)
    (accepted unrequested : Nat) (nodes : List Bytes) :
    forget (d.takeIn r outstanding accepted unrequested nodes) =
      d.takeIn r.store outstanding accepted unrequested nodes := by
  induction nodes generalizing d r outstanding accepted unrequested with
  | nil => rfl
  | cons data rest ih =>
    simp only [takeIn]
    split
    · rw [← forget_process]
      generalize process _ r _ _ = x
      obtain ⟨d', r', outcome⟩ := x
      cases outcome with
      | error err => rfl
      | ok u => exact ih ..
    · exact ih ..

theorem forget_deliver (d : StateDownload) (r : Recorder σ) (id : RequestId) (peer : PeerId)
    (nodes : List Bytes) :
    forget (d.deliver r id peer nodes) = d.deliver r.store id peer nodes := by
  simp only [deliver]
  split
  · rfl
  · rw [← forget_takeIn]
    generalize takeIn _ r _ _ _ _ = x
    obtain ⟨d', r', outcome⟩ := x
    cases outcome <;> rfl

/-- The same download on the database alone. -/
def forgetRecord (t : Desk (Recorder σ) StateDownload) : Desk σ StateDownload :=
  ⟨t.task, ⟨t.board.progress, t.board.store.store⟩, t.error⟩

theorem forgetRecord_apply (t : Desk (Recorder σ) StateDownload) (m : Move) :
    forgetRecord (t.apply m) = (forgetRecord t).apply m := by
  cases m with
  | reserve peer capacity live =>
    simp only [Desk.apply, forgetRecord]
    split <;> rfl
  | deliver id peer payload =>
    have hd := forget_deliver t.task t.board.store id peer payload.nodesOf
    simp only [Desk.apply, Receiver.deliver, forgetRecord, ← hd]
    generalize t.task.deliver t.board.store id peer payload.nodesOf = x
    obtain ⟨d', r', outcome⟩ := x
    cases outcome with
    | error err => rfl
    | ok delivery => cases delivery <;> rfl
  | fail id => rfl
  | failPeer peer => rfl

theorem forgetRecord_run (t : Desk (Recorder σ) StateDownload) (moves : List Move) :
    forgetRecord (t.run moves) = (forgetRecord t).run moves := by
  induction moves generalizing t with
  | nil => rfl
  | cons m moves ih =>
    rw [Desk.run, List.foldl_cons]
    exact (ih (t.apply m)).trans (congrArg (Desk.run · moves) (forgetRecord_apply t m))

def record (t : Desk σ StateDownload) : Desk (Recorder σ) StateDownload :=
  ⟨t.task, ⟨t.board.progress, ⟨t.board.store, []⟩⟩, t.error⟩

/-- Every list of nodes that a run gives to the database, with the database as it was before. -/
def commits (t : Desk σ StateDownload) (moves : List Move) : List (σ × List (Hash × Bytes)) :=
  ((record t).run moves).board.store.given

theorem run_record (t : Desk σ StateDownload) (moves : List Move) :
    forgetRecord ((record t).run moves) = t.run moves := forgetRecord_run (record t) moves

theorem error_run_record (t : Desk σ StateDownload) (moves : List Move) :
    ((record t).run moves).error = (t.run moves).error := congrArg (·.error) (run_record t moves)

theorem store_run_record (t : Desk σ StateDownload) (moves : List Move) :
    ((record t).run moves).board.store.store = (t.run moves).board.store :=
  congrArg (·.board.store) (run_record t moves)

end ChainSync.StateDownload
