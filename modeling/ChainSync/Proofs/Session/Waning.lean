import ChainSync.Proofs.Fetch.Abiding
import ChainSync.Proofs.Session.Outcome
set_option autoImplicit false

/-!
Nobody comes alive by an attempt, from the choice of its master to its end: whoever is gone or was
dropped stays away until something else brings it back.
-/

namespace ChainSync

open Fetch

namespace Attempt

theorem selectMaster_wanes (fuel : Nat) (peers : PeerSet) :
    peers.Wanes (selectMaster fuel peers).1 := .of_live fun _ hp live => (mem_selectMaster hp live).1

variable {σ : Type} {a : Attempt} {env : Surroundings} {h h' : Hub σ}

/-- Nobody comes alive by a step. -/
def Wanes (h : Hub σ) (out : Step σ) : Prop := h.peers.Wanes out.1.peers

namespace Wanes

theorem here {result : Except SyncError Standing} (same : h'.peers = h.peers) :
    Wanes h (h', result) := .of_same (congrArg PeerSet.activeIds same)

theorem after {out : Step σ} (wanes : Wanes h' out)
    (active : h.peers.Wanes h'.peers) : Wanes h out := active.trans wanes

end Wanes

theorem start_wanes {τ : Type} [Workload τ] [Receiver σ τ] (task : τ) (h : Hub σ)
    (cancelled : Bool) : h.peers.Wanes (Run.start task h cancelled).2.1.peers :=
  (Run.start_abides .trivial task h cancelled trivial).active

theorem commit_wanes (i : Insertion) : Wanes h (a.commit env h i) := by
  unfold commit
  split <;> exact .here rfl

theorem checkTotalDifficulty_wanes : Wanes h (a.checkTotalDifficulty env h) := by
  unfold checkTotalDifficulty
  split
  · exact .here rfl
  · split
    · exact .here rfl
    · exact .here rfl
    · split <;> exact .here rfl

section Import

variable {headers above : List Header} {pivotState : Option Header}

theorem onBodies_wanes {out : Run (BlockFetch Body) × Hub σ × Option (Except SyncError Unit)}
    (active : h.peers.Wanes out.2.1.peers) :
    Wanes h (a.onBodies env headers out) := by
  obtain ⟨run, h', result⟩ := out
  match result with
  | none => exact active
  | some (.error err) => exact active
  | some (.ok ()) => exact (commit_wanes _).after active

theorem importFull_wanes : Wanes h (a.importFull env h headers) := by
  refine onBodies_wanes (.trans ?_ (start_wanes ..))
  exact .of_same rfl

theorem onBoth_wanes (bodies : Leg (BlockFetch Body))
    (receipts : Leg (BlockFetch (List Receipt))) :
    Wanes h (a.onBoth env h headers pivotState above bodies receipts) := by
  unfold onBoth
  split
  · exact commit_wanes _
  · exact .here rfl

theorem startLeg_active {δ : Type} [BlockData δ] {task : BlockFetch δ} {cancelled : Bool}
    {result : Except SyncError (Leg (BlockFetch δ))}
    (started : legOf (Run.start task h cancelled) = (h', result)) :
    h.peers.Wanes h'.peers := by
  have same : (legOf (Run.start task h cancelled)).1 = h' := congrArg Prod.fst started
  rw [← same, legOf_fst]
  exact start_wanes ..

theorem leave_active {τ : Type} (h : Hub σ) (leg : Leg τ) :
    h.peers.Wanes (leg.leave h).peers := by
  cases leg with
  | running run => exact (Hub.Wanes.leave h run).active
  | complete task => exact .refl _

theorem importFast_wanes : Wanes h (a.importFast env h headers pivotState above) := by
  unfold importFast
  dsimp only
  generalize hopened : Hub.setProgress _ _ = opened
  have started : h.peers.Wanes opened.peers := hopened ▸ .refl _
  split
  · rename_i heq
    exact started.trans (startLeg_active heq)
  · rename_i heq
    have first := started.trans (startLeg_active heq)
    split
    · rename_i heq
      exact (first.trans (startLeg_active heq)).trans (leave_active ..)
    · rename_i heq
      exact (onBoth_wanes ..).after (first.trans (startLeg_active heq))

theorem importSegment_wanes : Wanes h (a.importSegment env h headers) := by
  unfold importSegment
  split
  · exact commit_wanes _
  · exact importFull_wanes
  · dsimp only
    split
    · exact importFast_wanes
    · exact importFull_wanes

end Import

section Segments

theorem onFill_wanes {out : Run HeaderFill × Hub σ × Option (Except SyncError Unit)}
    (active : h.peers.Wanes out.2.1.peers) : Wanes h (a.onFill env out) := by
  obtain ⟨run, h', result⟩ := out
  match result with
  | none => exact active
  | some (.error err) => exact active
  | some (.ok ()) =>
    simp only [onFill]
    split
    · exact checkTotalDifficulty_wanes.after active
    · exact importSegment_wanes.after active

theorem onSkeleton_wanes (origin : Header) (stop : Nat)
    {out : Hub σ × Except SyncError (SkeletonFetch ⊕ List Header)} (wanes : h.Wanes out.1) :
    Wanes h (a.onSkeleton env origin stop out) := by
  obtain ⟨h', result⟩ := out
  match result with
  | .error err => exact wanes.active
  | .ok (.inl fetch) => exact wanes.active
  | .ok (.inr skeleton) =>
    simp only [onSkeleton, fillSkeleton]
    split
    · exact wanes.active
    · exact (onFill_wanes (start_wanes ..)).after wanes.active

theorem nextSegment_wanes (last : Header) : Wanes h (a.nextSegment env h last) := by
  unfold nextSegment
  split
  · have asked := SkeletonFetch.advance_wanes (h.setPhase .fetchingHeaders) env.cancelled a.master
    exact (onSkeleton_wanes _ _ (asked ..)).after (.refl _)
  · exact checkTotalDifficulty_wanes

theorem continueAbove_wanes (last : Header) (above : List Header) :
    Wanes h (a.continueAbove env h last above) := by
  unfold continueAbove
  split
  · exact nextSegment_wanes last
  · exact importFull_wanes

end Segments

section State

theorem onState_wanes (pivot : Header) (above : List Header) (expires : Nat)
    {out : Run StateDownload × Hub σ × Option (Except SyncError Unit)}
    (active : h.peers.Wanes out.2.1.peers) :
    Wanes h (a.onState env pivot above expires out) := by
  obtain ⟨run, h', result⟩ := out
  match result with
  | none =>
    simp only [onState]
    split
    · unfold fallBack
      exact (continueAbove_wanes ..).after (active.trans (Hub.Wanes.leave h' run).active)
    · exact active
  | some (.error err) => exact active
  | some (.ok ()) => exact (continueAbove_wanes ..).after active

variable [NodeStore σ]

theorem fetchState_wanes (pivot : Header) (above : List Header) :
    Wanes h (a.fetchState env h pivot above) := by
  unfold fetchState
  split
  · exact continueAbove_wanes ..
  · split
    · exact .here rfl
    · dsimp only
      split
      · exact .here rfl
      · refine onState_wanes _ _ _ (.trans ?_ (start_wanes ..))
        exact .of_same rfl

omit [NodeStore σ] in
theorem refused_wanes (i : Insertion) (err : InsertError) : Wanes h (refused h i err) := by
  unfold refused
  split
  · exact .here rfl
  · dsimp only
    split
    · exact PeerSet.Wanes.blacklist ..
    · exact .here rfl

theorem landed_wanes (i : Insertion) (result : Except InsertError Unit) :
    Wanes h (a.landed env h i result) := by
  cases result with
  | error err => exact refused_wanes i err
  | ok =>
    simp only [landed]
    split
    · simp only [accepted]
      split
      · exact (fetchState_wanes ..).after (.of_same rfl)
      · exact (continueAbove_wanes ..).after (.of_same rfl)
    · exact checkTotalDifficulty_wanes

end State

theorem onAncestor_wanes {out : Hub σ × Except SyncError (AncestorSearch ⊕ Ancestor)}
    (wanes : h.Wanes out.1) : Wanes h (a.onAncestor env out) := by
  obtain ⟨h', result⟩ := out
  match result with
  | .error err => exact wanes.active
  | .ok (.inl search) => exact wanes.active
  | .ok (.inr ancestor) => exact (nextSegment_wanes _).after wanes.active

theorem begin_wanes (env : Surroundings) (mode : SyncMode) (target : Option Nat) (h : Hub σ) :
    Wanes h (begin env mode target h) := by
  have selected := selectMaster_wanes (h.peers.peers.length + 1) h.peers
  unfold begin
  dsimp only [Hub.setPhase, Hub.setProgress, Hub.setPeers]
  split
  · exact selected
  · split
    · exact selected
    · split
      · exact selected
      · exact (onAncestor_wanes (AncestorSearch.probe_wanes ..)).after selected

section Legs

variable {τ υ : Type} [Workload τ] [Workload υ] [Receiver σ τ] [Receiver σ υ]

theorem stepLeg_active (h : Hub σ) (cancelled : Bool) (signal : Signal) (leg : Leg τ) :
    h.peers.Wanes (stepLegs.stepLeg cancelled h signal leg).1.peers := by
  cases leg with
  | running run =>
    simp only [stepLegs.stepLeg, legOf_fst]
    exact (Run.step_abides .trivial run h cancelled signal trivial).active
  | complete task => exact .refl _

theorem stepLegs_active (h : Hub σ) (cancelled : Bool) (forFirst forSecond : Signal)
    (first : Leg τ) (second : Leg υ) :
    h.peers.Wanes (stepLegs h cancelled forFirst forSecond first second).1.peers := by
  have one := stepLeg_active h cancelled forFirst first
  unfold stepLegs
  split <;> rename_i heq <;> rw [heq] at one
  · exact one.trans (leave_active ..)
  · rename_i h' first
    have two := one.trans (stepLeg_active h' cancelled forSecond second)
    split <;> rename_i heq <;> rw [heq] at two
    · exact two.trans (leave_active ..)
    · exact two

end Legs

theorem stepBoth_wanes {headers above : List Header} {pivotState : Option Header}
    (bodies : Leg (BlockFetch Body)) (receipts : Leg (BlockFetch (List Receipt)))
    (signal : Signal) :
    Wanes h (a.stepBoth env h headers pivotState above bodies receipts signal) := by
  unfold stepBoth
  generalize shareSignal h bodies receipts signal = signals
  obtain ⟨forBodies, forReceipts⟩ := signals
  have one := stepLegs_active h env.cancelled forBodies forReceipts bodies receipts
  dsimp only
  split <;> rename_i heq <;> rw [heq] at one
  · exact one
  · rename_i h' bodies receipts
    have two := one.trans (stepLegs_active h' env.cancelled .woken .woken bodies receipts)
    split <;> rename_i heq <;> rw [heq] at two
    · exact two
    · exact (onBoth_wanes ..).after two

variable [NodeStore σ]

theorem step_wanes (stage : Stage) (signal : Signal) : Wanes h (a.step env h stage signal) := by
  cases stage with
  | ancestor search => exact onAncestor_wanes (search.step_wanes ..)
  | skeleton origin stop fetch => exact onSkeleton_wanes _ _ (fetch.step_wanes ..)
  | fill run => exact onFill_wanes (Run.step_abides .trivial run h _ signal trivial).active
  | bodies headers run => exact onBodies_wanes (Run.step_abides .trivial run h _ signal trivial).active
  | bodiesAndReceipts headers pivotState above bodies receipts => exact stepBoth_wanes ..
  | state pivot above run expires =>
    have told := (Run.step_abides .trivial run h env.cancelled signal trivial).active
    cases signal with
    | deadline =>
      simp only [step]
      split
      · exact onState_wanes _ _ _ told
      · exact onState_wanes _ _ _ (.refl _)
    | woken => exact onState_wanes _ _ _ told
    | ended ticket ending => exact onState_wanes _ _ _ told
  | inserting i => exact .here rfl

end Attempt
end ChainSync
