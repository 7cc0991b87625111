import ChainSync.Proofs.Headers.Blame
import ChainSync.Proofs.Headers.Skeleton
import ChainSync.Proofs.Peer.Choice
set_option autoImplicit false

/-!
How an attempt begins: whom it takes as its master, and what becomes of its first question.
-/

namespace ChainSync

open Fetch

/-- A question was not answered yet. -/
theorem AncestorSearch.probe_unfound {σ : Type} (h : Hub σ) (cancelled : Bool) (peer : SyncPeer)
    (localHead : Header) (maxForkAncestry probes : Nat) (aim : Aim) (ancestor : Ancestor) :
    (probe h cancelled peer localHead maxForkAncestry probes aim).2 ≠ .ok (.inr ancestor) := by
  unfold probe
  dsimp only
  split <;> simp

namespace Attempt

variable {σ : Type} {env : Surroundings} {mode : SyncMode} {target : Option Nat} {h : Hub σ}
  {master : SyncPeer}

/-- The peer that an attempt begins with, if there is one to be chosen. -/
def master? (h : Hub σ) : Option SyncPeer :=
  (selectMaster (h.peers.peers.length + 1) h.peers).2.toOption

theorem master?_eq_some : master? h = some master ↔
    (selectMaster (h.peers.peers.length + 1) h.peers).2 = .ok master := by
  unfold master?
  cases (selectMaster (h.peers.peers.length + 1) h.peers).2 <;> simp [Except.toOption]

/-- What the first step of an attempt with this master comes to. -/
inductive Opened (env : Surroundings) (target : Option Nat) (master : SyncPeer) :
    Except SyncError Standing → Prop where
  | asking {a : Attempt} {search : AncestorSearch} (same : a.master = master)
      (asked : search.AskedOf master) (aim : a.target = target.getD master.info.head.toNat)
      (below : a.target ≤ master.info.head.toNat) :
      Opened env target master (.ok (some (a, .ancestor search)))
  | beyond {n : Nat} (aim : target = some n) (above : master.info.head.toNat < n) :
      Opened env target master (.error (.invalidTarget n master.info.head.toNat))
  | chain {e : ChainError} (failed : env.view.Fails e) :
      Opened env target master (.error (.chain e))
  | cancelled (seen : env.cancelled = true) : Opened env target master (.error .cancelled)
  | failed {err : SyncError} (blamed : err.Blames master.id) :
      Opened env target master (.error err)

theorem begin_unopened (nobody : master? h = none) :
    begin env mode target h = ((h.setPhase .selectingPeer).setPeers
      (selectMaster (h.peers.peers.length + 1) h.peers).1, .error .noUsablePeers) := by
  unfold master? at nobody
  unfold begin
  dsimp only [Hub.setPhase, Hub.setProgress, Hub.setPeers]
  cases chosen : (selectMaster (h.peers.peers.length + 1) h.peers).2 with
  | ok master => simp [chosen, Except.toOption] at nobody
  | error err => rw [selectMaster_error chosen]

/-- The first question to a master. -/
theorem probe_opened {a : Attempt} (aim : a.target = target.getD a.master.info.head.toNat)
    (below : a.target ≤ a.master.info.head.toNat) (localHead : Header)
    (maxForkAncestry probes : Nat) (first : Aim) :
    let out := a.onAncestor env
      (AncestorSearch.probe h env.cancelled a.master localHead maxForkAncestry probes first)
    h.Quiet out.1 ∧ Opened env target a.master out.2 := by
  generalize hprobe : AncestorSearch.probe h env.cancelled a.master _ _ _ _ = out
  have quiet : h.Quiet out.1 := hprobe ▸ AncestorSearch.probe_quiet ..
  obtain ⟨h', result⟩ := out
  match result with
  | .error err =>
    refine ⟨quiet, ?_⟩
    rcases AncestorSearch.probe_error (congrArg Prod.snd hprobe) with ⟨rfl, seen⟩ | blamed
    · exact .cancelled seen
    · exact .failed blamed
  | .ok (.inl search) =>
    have asked := AncestorSearch.probe_asked (congrArg Prod.snd hprobe)
    exact ⟨quiet, .asking rfl asked aim below⟩
  | .ok (.inr ancestor) =>
    exact absurd (congrArg Prod.snd hprobe) (AncestorSearch.probe_unfound _ _ _ _ _ _ _ _)

theorem begin_opened (chosen : master? h = some master) :
    h.Quiet (begin env mode target h).1 ∧
      Opened env target master (begin env mode target h).2 := by
  have config := config_selectMaster (h.peers.peers.length + 1) h.peers
  have ids := ids_selectMaster (h.peers.peers.length + 1) h.peers
  rw [master?_eq_some] at chosen
  unfold begin
  dsimp only [Hub.setPhase, Hub.setProgress, Hub.setPeers]
  generalize selectMaster (h.peers.peers.length + 1) h.peers = out at chosen config ids ⊢
  obtain ⟨peers, choice⟩ := out
  obtain rfl : choice = .ok master := chosen
  dsimp only
  split
  · rename_i above
    refine ⟨⟨rfl, config, ids, rfl⟩, ?_⟩
    cases target with
    | none => simp at above
    | some n => exact .beyond rfl above
  · rename_i below
    split
    · rename_i failed
      exact ⟨⟨rfl, config, ids, rfl⟩, .chain (.current failed)⟩
    · obtain ⟨quiet, opened⟩ := probe_opened (a := ⟨_, master, target.getD _, none⟩) rfl
        (Nat.le_of_not_gt below) _ _ _ _
      refine ⟨.trans ?_ quiet, opened⟩
      exact ⟨rfl, config, ids, rfl⟩

theorem begin_quiet : h.Quiet (begin env mode target h).1 := by
  cases chosen : master? h with
  | none =>
    rw [begin_unopened chosen]
    exact ⟨rfl, config_selectMaster .., ids_selectMaster .., rfl⟩
  | some master => exact (begin_opened chosen).1

/-- An attempt begins in the mode that was asked for, or in full mode if there is no store for
state, and without a pivot. -/
theorem begin_mode {a : Attempt} {stage : Stage}
    (begun : (begin env mode target h).2 = .ok (some (a, stage))) :
    a.mode = (if mode = .snap ∧ !env.hasStore then .full else mode) ∧ a.pivot = none := by
  unfold begin at begun
  dsimp only at begun
  split at begun
  · cases begun
  · split at begun
    · cases begun
    · split at begun
      · cases begun
      · -- the first question is not answered yet
        generalize hprobe : AncestorSearch.begin _ _ _ _ _ = out at begun
        obtain ⟨h', result⟩ := out
        match result with
        | .error err => cases begun
        | .ok (.inl search) =>
          cases begun
          exact ⟨rfl, rfl⟩
        | .ok (.inr ancestor) =>
          exact absurd (congrArg Prod.snd hprobe) (AncestorSearch.probe_unfound _ _ _ _ _ _ _ _)

/-- An attempt that has only begun looks for a common block. -/
theorem begin_cases (env : Surroundings) (mode : SyncMode) (target : Option Nat) (h : Hub σ) :
    (∃ err, (begin env mode target h).2 = .error err) ∨ ∃ a search,
      (begin env mode target h).2 = .ok (some (a, .ancestor search)) ∧
        search.AskedOf a.master ∧ a.target = target.getD a.master.info.head.toNat ∧
          a.target ≤ a.master.info.head.toNat := by
  cases chosen : master? h with
  | none =>
    rw [begin_unopened chosen]
    exact .inl ⟨_, rfl⟩
  | some master =>
    have opened : Opened env target master (begin env mode target h).2 := (begin_opened chosen).2
    generalize begin env mode target h = out at opened
    obtain ⟨h', result⟩ := out
    cases opened with
    | asking same asked aim below =>
      subst same
      exact .inr ⟨_, _, rfl, asked, aim, below⟩
    | _ => exact .inl ⟨_, rfl⟩

end Attempt
end ChainSync
