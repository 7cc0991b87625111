import Mathlib.Data.List.TakeWhile
import ChainSync.Proofs.Fetch.Calm
import ChainSync.Proofs.Session.Stages
set_option autoImplicit false

/-!
How an attempt sorts blocks. Up to its border they are stored with their receipts, above it they
are executed, and a batch that ends at the border brings the pivot.
-/

namespace ChainSync

open Fetch

namespace Attempt

/-- The last block that is not executed in snap mode. -/
def border (a : Attempt) : Nat := a.pivot.getD a.target

theorem border_of_pivot {a : Attempt} {p : Nat} (pivot : a.pivot = some p) : a.border = p := by
  rw [border, pivot, Option.getD_some]

/-- What is executed in snap mode begins above the border. -/
def Executes (a : Attempt) (headers : List Header) : Prop :=
  a.mode = .snap → ∀ h, headers.head? = some h → a.border < h.height

structure Divides (a : Attempt) (headers : List Header) (pivotState : Option Header)
    (above : List Header) : Prop where
  snap : a.mode = .snap
  below : ∀ h ∈ headers, h.height ≤ a.border
  above : ∀ h, above.head? = some h → a.border < h.height
  pivot : ∀ h, headers.getLast? = some h →
    pivotState = if h.height = a.border then some h else none

/-- How the blocks of a stage are sorted. No state is being fetched. -/
def Shaped (a : Attempt) : Stage → Prop
  | .bodies headers _ => a.Executes headers
  | .bodiesAndReceipts headers pivotState above _ _ => a.Divides headers pivotState above
  | .state .. => False
  | .inserting i =>
    match i.batch with
    | .headers _ => a.mode = .light
    | .blocks _ => a.Executes i.headers ∧ i.pivotState = none ∧ i.above = []
    | .receipts _ _ => a.Divides i.headers i.pivotState i.above
  | .ancestor _ | .skeleton .. | .fill _ => True

variable {σ : Type} {a : Attempt} {env : Surroundings} {h h' : Hub σ}

/-- The attempt goes on as it is, and sorts blocks. -/
structure Goes (a : Attempt) (h : Hub σ) (out : Step σ) : Prop where
  calm : h.Calm out.1
  shaped : ∀ a' stage, out.2 = .ok (some (a', stage)) → a' = a ∧ a.Shaped stage

namespace Goes

theorem error (calm : h.Calm h') (err : SyncError) : a.Goes h (h', .error err) :=
  ⟨calm, by simp⟩

theorem done (h : Hub σ) : a.Goes h (h, .ok none) := ⟨.refl h, by simp⟩

theorem wait (calm : h.Calm h') {stage : Stage} (shaped : a.Shaped stage) :
    a.Goes h (h', .ok (some (a, stage))) := by
  refine ⟨calm, ?_⟩
  rintro _ _ ⟨⟩
  exact ⟨rfl, shaped⟩

theorem after {out : Step σ} (goes : a.Goes h' out) (calm : h.Calm h') : a.Goes h out :=
  ⟨calm.trans goes.calm, goes.shaped⟩

end Goes

theorem commit_goes {i : Insertion} (shaped : a.Shaped (.inserting i)) :
    a.Goes h (a.commit env h i) := by
  unfold commit
  split
  · exact .error (.refl h) _
  · exact .wait (.setPhase ..) shaped

theorem checkTotalDifficulty_goes : a.Goes h (a.checkTotalDifficulty env h) := by
  unfold checkTotalDifficulty
  split
  · exact .done h
  · split
    · exact .error (.refl h) _
    · exact .error (.refl h) _
    · split
      · exact .error (.refl h) _
      · exact .done h

section Import

variable {headers above : List Header} {pivotState : Option Header}

theorem onBodies_goes (executes : a.Executes headers)
    {out : Run (BlockFetch Body) × Hub σ × Option (Except SyncError Unit)}
    (calm : h.Calm out.2.1) : a.Goes h (a.onBodies env headers out) := by
  obtain ⟨run, h', result⟩ := out
  match result with
  | none => exact .wait calm executes
  | some (.error err) => exact .error calm err
  | some (.ok ()) =>
    refine (commit_goes ?_).after calm
    exact ⟨executes, rfl, rfl⟩

theorem importFull_goes (executes : a.Executes headers) :
    a.Goes h (a.importFull env h headers) := by
  unfold importFull
  dsimp only
  refine onBodies_goes executes (.trans ?_ (Run.start_calm ..))
  exact ⟨rfl, rfl, rfl⟩

theorem onBoth_goes (divides : a.Divides headers pivotState above)
    (bodies : Leg (BlockFetch Body)) (receipts : Leg (BlockFetch (List Receipt))) :
    a.Goes h (a.onBoth env h headers pivotState above bodies receipts) := by
  unfold onBoth
  split
  · exact commit_goes divides
  · exact .wait (.refl h) divides

theorem legOf_calm {τ : Type} {out : Run τ × Hub σ × Option (Except SyncError Unit)}
    (calm : h.Calm out.2.1) : h.Calm (legOf out).1 := by
  obtain ⟨run, h', result⟩ := out
  match result with
  | none => exact calm
  | some (.error err) => exact calm
  | some (.ok ()) => exact calm

theorem startLeg_calm {τ : Type} [Workload τ] {task : τ} {cancelled : Bool}
    {result : Except SyncError (Leg τ)}
    (started : legOf (Run.start task h cancelled) = (h', result)) : h.Calm h' := by
  have calm := legOf_calm (Run.start_calm task h cancelled)
  rwa [started] at calm

theorem leave_calm {τ : Type} (h : Hub σ) (leg : Leg τ) : h.Calm (leg.leave h) := by
  cases leg with
  | running run => exact .leave h run
  | complete task => exact .refl h

theorem importFast_goes (divides : a.Divides headers pivotState above) :
    a.Goes h (a.importFast env h headers pivotState above) := by
  unfold importFast
  dsimp only
  generalize hopened : Hub.setProgress _ _ = opened
  have started : h.Calm opened := hopened ▸ ⟨rfl, rfl, rfl⟩
  split
  · rename_i heq
    exact .error (started.trans (startLeg_calm heq)) _
  · rename_i heq
    have first := started.trans (startLeg_calm heq)
    split
    · rename_i heq
      exact .error (first.trans ((startLeg_calm heq).trans (leave_calm ..))) _
    · rename_i heq
      exact (onBoth_goes divides ..).after (first.trans (startLeg_calm heq))

/-- What a segment has above the border is executed. -/
theorem border_lt_of_dropWhile {g : Header}
    (hg : (headers.dropWhile fun x => decide (x.height ≤ a.border)).head? = some g) :
    a.border < g.height := by
  have := List.head?_dropWhile_not (fun x : Header => decide (x.height ≤ a.border)) headers
  rw [hg] at this
  simpa using this

theorem divides_segment (snap : a.mode = .snap) {last : Header}
    (hlast : (headers.takeWhile fun x => decide (x.height ≤ a.border)).getLast? = some last) :
    a.Divides (headers.takeWhile fun x => decide (x.height ≤ a.border))
      (if last.height = a.border then some last else none)
      (headers.dropWhile fun x => decide (x.height ≤ a.border)) := by
  refine ⟨snap, fun g hg => ?_, fun g => border_lt_of_dropWhile, fun g hg => ?_⟩
  · have low := List.mem_takeWhile_imp hg
    simpa using low
  · obtain rfl := Option.some.inj (hlast.symm.trans hg)
    rfl

theorem importSegment_goes : a.Goes h (a.importSegment env h headers) := by
  unfold importSegment
  split
  · rename_i light
    exact commit_goes light
  · rename_i full
    exact importFull_goes fun snap => by simp [full] at snap
  · rename_i snap
    dsimp only
    split
    · rename_i last hlast
      exact importFast_goes (divides_segment snap hlast)
    · exact importFull_goes fun _ _ => border_lt_of_dropWhile

end Import

section Segments

theorem onFill_goes {out : Run HeaderFill × Hub σ × Option (Except SyncError Unit)}
    (calm : h.Calm out.2.1) : a.Goes h (a.onFill env out) := by
  obtain ⟨run, h', result⟩ := out
  match result with
  | none => exact .wait calm trivial
  | some (.error err) => exact .error calm err
  | some (.ok ()) =>
    simp only [onFill]
    split
    · exact checkTotalDifficulty_goes.after calm
    · exact importSegment_goes.after calm

theorem onSkeleton_goes (base : Header) (stop : Nat)
    {out : Hub σ × Except SyncError (SkeletonFetch ⊕ List Header)} (calm : h.Calm out.1) :
    a.Goes h (a.onSkeleton env base stop out) := by
  obtain ⟨h', result⟩ := out
  match result with
  | .error err => exact .error calm err
  | .ok (.inl fetch) => exact .wait calm trivial
  | .ok (.inr skeleton) =>
    simp only [onSkeleton, fillSkeleton]
    split
    · exact .error calm _
    · exact (onFill_goes (Run.start_calm ..)).after calm

theorem nextSegment_goes (last : Header) : a.Goes h (a.nextSegment env h last) := by
  unfold nextSegment
  split
  · have phase : h.Calm (h.setPhase .fetchingHeaders) := ⟨rfl, rfl, rfl⟩
    exact onSkeleton_goes _ _ (phase.trans (SkeletonFetch.advance_calm ..))
  · exact checkTotalDifficulty_goes

theorem continueAbove_goes (last : Header) {above : List Header} (executes : a.Executes above) :
    a.Goes h (a.continueAbove env h last above) := by
  unfold continueAbove
  split
  · exact nextSegment_goes last
  · exact importFull_goes executes

end Segments

section Legs

variable {τ υ : Type} [Workload τ] [Workload υ] [Receiver σ τ] [Receiver σ υ] [Reticent σ τ]
  [Reticent σ υ]

theorem stepLeg_calm (h : Hub σ) (cancelled : Bool) (signal : Signal) (leg : Leg τ) :
    h.Calm (stepLegs.stepLeg cancelled h signal leg).1 := by
  cases leg with
  | running run => exact legOf_calm (Run.step_calm ..)
  | complete task => exact .refl h

theorem stepLegs_calm (h : Hub σ) (cancelled : Bool) (forFirst forSecond : Signal)
    (first : Leg τ) (second : Leg υ) :
    h.Calm (stepLegs h cancelled forFirst forSecond first second).1 := by
  have one := stepLeg_calm h cancelled forFirst first
  unfold stepLegs
  split <;> rename_i heq <;> rw [heq] at one
  · exact one.trans (leave_calm ..)
  · rename_i h' first
    have two := one.trans (stepLeg_calm h' cancelled forSecond second)
    split <;> rename_i heq <;> rw [heq] at two
    · exact two.trans (leave_calm ..)
    · exact two

end Legs

theorem stepBoth_goes {headers above : List Header} {pivotState : Option Header}
    (divides : a.Divides headers pivotState above) (bodies : Leg (BlockFetch Body))
    (receipts : Leg (BlockFetch (List Receipt))) (signal : Signal) :
    a.Goes h (a.stepBoth env h headers pivotState above bodies receipts signal) := by
  unfold stepBoth
  generalize shareSignal h bodies receipts signal = signals
  obtain ⟨forBodies, forReceipts⟩ := signals
  have one := stepLegs_calm h env.cancelled forBodies forReceipts bodies receipts
  dsimp only
  split <;> rename_i heq <;> rw [heq] at one
  · exact .error one _
  · rename_i h' bodies receipts
    have two := one.trans (stepLegs_calm h' env.cancelled .woken .woken bodies receipts)
    split <;> rename_i heq <;> rw [heq] at two
    · exact .error two _
    · exact (onBoth_goes divides ..).after two

variable [NodeStore σ]

/-- While no state is fetched a step leaves the attempt as it is. A search ends elsewhere. -/
theorem step_goes {stage : Stage} (shaped : a.Shaped stage)
    (found : ∀ search, stage ≠ .ancestor search) (signal : Signal) :
    a.Goes h (a.step env h stage signal) := by
  cases stage with
  | ancestor search => exact absurd rfl (found search)
  | skeleton base stop fetch => exact onSkeleton_goes _ _ (fetch.step_calm ..)
  | fill run => exact onFill_goes (Run.step_calm ..)
  | bodies headers run => exact onBodies_goes shaped (Run.step_calm ..)
  | bodiesAndReceipts headers pivotState above bodies receipts => exact stepBoth_goes shaped ..
  | state => exact shaped.elim
  | inserting i => exact .wait (.refl h) shaped

end Attempt
end ChainSync
