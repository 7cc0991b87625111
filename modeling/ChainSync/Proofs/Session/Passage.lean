import ChainSync.Proofs.Session.Course
import ChainSync.Proofs.Session.Shape
import ChainSync.Proofs.State.Accounts
set_option autoImplicit false

/-!
The way of an attempt past its pivot: what it does in which order, and what comes of the pivot's
state.
-/

namespace ChainSync

open Fetch

/-- What counts of the doings of an attempt, apart from what it asks of peers. -/
inductive Deed where
  /-- The local chain took a batch. -/
  | accepted (i : Insertion)
  /-- The download of a block's state starts, and may take until `expires`. -/
  | begun (pivot : Header) (expires : Nat)
  | completed (task : StateDownload)
  | fellBack (now : Nat)
  | handed (i : Insertion)

namespace Deed

def isBegun : Deed → Bool
  | .begun .. => true
  | _ => false

def isFellBack : Deed → Bool
  | .fellBack _ => true
  | _ => false

def accepted? : Deed → Option Insertion
  | .accepted i => some i
  | _ => none

def handed? : Deed → Option Insertion
  | .handed i => some i
  | _ => none

theorem filterMap_accepted (batches : List Insertion) :
    (batches.map accepted).filterMap accepted? = batches ∧
      (batches.map accepted).filterMap handed? = [] := by
  simp [List.filterMap_map, Function.comp_def, accepted?, handed?]

theorem filterMap_handed (batches : List Insertion) :
    (batches.map handed).filterMap handed? = batches ∧
      (batches.map handed).filterMap accepted? = [] := by
  simp [List.filterMap_map, Function.comp_def, accepted?, handed?]

end Deed

/-- Where a chain stands that is to pass a pivot. -/
inductive Passage where
  | below
  /-- The local chain took the pivot itself. -/
  | reached (pivot : Header)
  | fetching (pivot : Header) (expires : Nat)
  /-- With the pivot's state in snap mode, without it in full mode. -/
  | beyond (mode : SyncMode)

/-- Blocks up to the pivot come with the receipts that their headers commit to, the others are to
be executed. -/
def Batch.PartedAt (p : Nat) : Batch → Prop
  | .headers _ => False
  | .blocks bs => ∀ b ∈ bs, p < b.header.height
  | .receipts bs rs =>
    List.Forall₂ (fun b items => b.header.height ≤ p ∧ b.header.checkReceipts items = .ok ()) bs rs

namespace Passage

/-- One deed, at a pivot of height `p`. -/
inductive Step (p : Nat) : Passage → Deed → Passage → Prop where
  | handBelow {i : Insertion} (low : ∀ h ∈ i.batch.headersOf, h.height ≤ p) :
      Step p .below (.handed i) .below
  | takeBelow {i : Insertion} : Step p .below (.accepted i) .below
  | reach {i : Insertion} {pivot : Header} (last : i.batch.headersOf.getLast? = some pivot)
      (height : pivot.height = p) : Step p .below (.accepted i) (.reached pivot)
  | begin {pivot : Header} {expires : Nat} :
      Step p (.reached pivot) (.begun pivot expires) (.fetching pivot expires)
  | complete {pivot : Header} {expires : Nat} {task : StateDownload}
      (root : task.root = pivot.stateRoot) (done : task.isDone = true) :
      Step p (.fetching pivot expires) (.completed task) (.beyond .snap)
  | fallBack {pivot : Header} {expires now : Nat} (late : expires ≤ now) :
      Step p (.fetching pivot expires) (.fellBack now) (.beyond .full)
  | handAbove {mode : SyncMode} {i : Insertion} (high : ∀ h ∈ i.batch.headersOf, p < h.height) :
      Step p (.beyond mode) (.handed i) (.beyond mode)
  | takeAbove {mode : SyncMode} {i : Insertion} :
      Step p (.beyond mode) (.accepted i) (.beyond mode)

/-- The deeds lead from below the pivot to where the chain stands. -/
inductive Leads (p : Nat) : List Deed → Passage → Prop where
  | start : Leads p [] .below
  | next {story : List Deed} {s s' : Passage} {d : Deed} (led : Leads p story s)
      (step : Step p s d s') : Leads p (story ++ [d]) s'

variable {p : Nat} {story before after : List Deed} {s : Passage} {d : Deed}

/-- How often the download has begun. -/
def begins : Passage → Nat
  | .below | .reached _ => 0
  | .fetching .. | .beyond _ => 1

def fallbacks : Passage → Nat
  | .beyond .full => 1
  | _ => 0

/-- A pivot of height `p` is passed in order: the local chain takes it, its state is fetched once,
and only then what is above it is handed over. -/
structure Orderly (p : Nat) (story : List Deed) : Prop where
  once : story.countP Deed.isBegun ≤ 1
  begun : ∀ before pivot expires after, story = before ++ .begun pivot expires :: after →
    pivot.height = p ∧ ∃ i, .accepted i ∈ before ∧ i.batch.headersOf.getLast? = some pivot
  completed : ∀ before task after, story = before ++ .completed task :: after →
    task.isDone = true ∧ ∃ pivot expires, .begun pivot expires ∈ before ∧ task.root = pivot.stateRoot
  fellBack : ∀ before now after, story = before ++ .fellBack now :: after →
    ∃ pivot expires, .begun pivot expires ∈ before ∧ expires ≤ now
  above : ∀ before i after, story = before ++ .handed i :: after →
    (∃ h ∈ i.batch.headersOf, p < h.height) → before.countP Deed.isBegun = 1 ∧
      ((∃ task, .completed task ∈ before) ∨ ∃ now, .fellBack now ∈ before)
  settled : story.countP Deed.isFellBack ≤ 1

namespace Leads

theorem countP_begun (h : Leads p story s) : story.countP Deed.isBegun = s.begins := by
  induction h with
  | start => rfl
  | next led step ih =>
    rw [List.countP_append, ih]
    cases step <;> rfl

theorem countP_fellBack (h : Leads p story s) :
    story.countP Deed.isFellBack = s.fallbacks := by
  induction h with
  | start => rfl
  | next led step ih =>
    rw [List.countP_append, ih]
    cases step <;> rfl

theorem completed_iff (h : Leads p story s) :
    (∃ task, .completed task ∈ story) ↔ s = .beyond .snap := by
  induction h with
  | start => simp
  | next led step ih =>
    simp only [List.mem_append, exists_or, ih]
    cases step <;> simp

theorem fellBack_iff (h : Leads p story s) :
    (∃ now, .fellBack now ∈ story) ↔ s = .beyond .full := by
  induction h with
  | start => simp
  | next led step ih =>
    simp only [List.mem_append, exists_or, ih]
    cases step <;> simp

theorem mode (h : Leads p story s) {mode : SyncMode} (beyond : s = .beyond mode) :
    mode = .snap ∨ mode = .full := by
  induction h with
  | start => cases beyond
  | next led step ih =>
    cases step <;> simp_all

theorem accepted (h : Leads p story s) {pivot : Header} (reached : s = .reached pivot) :
    pivot.height = p ∧ ∃ i, .accepted i ∈ story ∧ i.batch.headersOf.getLast? = some pivot := by
  cases h with
  | start => cases reached
  | next led step =>
    subst reached
    cases step with
    | reach last height => exact ⟨height, _, by simp, last⟩

theorem begun (h : Leads p story s) {pivot : Header} {expires : Nat}
    (fetching : s = .fetching pivot expires) :
    .begun pivot expires ∈ story ∧ pivot.height = p := by
  cases h with
  | start => cases fetching
  | next led step =>
    subst fetching
    cases step with
    | begin => exact ⟨by simp, (led.accepted rfl).1⟩

/-- Every deed of the story is a step of the way. -/
theorem split (h : Leads p (before ++ d :: after) s) :
    ∃ s₁ s₂, Leads p before s₁ ∧ Step p s₁ d s₂ := by
  induction after using List.reverseRecOn generalizing s with
  | nil =>
    generalize hstory : before ++ [d] = story at h
    cases h with
    | start => simp at hstory
    | next led step =>
      obtain ⟨rfl, heq⟩ := List.append_inj' hstory rfl
      obtain rfl := List.singleton_inj.mp heq
      exact ⟨_, _, led, step⟩
  | append_singleton after last ih =>
    generalize hstory : before ++ d :: (after ++ [last]) = story at h
    cases h with
    | start => simp at hstory
    | next led step =>
      rw [← List.cons_append, ← List.append_assoc] at hstory
      obtain ⟨rfl, -⟩ := List.append_inj' hstory rfl
      exact ih led

theorem orderly (h : Leads p story s) : Orderly p story where
  once := by
    rw [h.countP_begun]
    cases s <;> simp [begins]
  begun := by
    rintro before pivot expires after rfl
    obtain ⟨s₁, s₂, led, step⟩ := h.split
    cases step with
    | begin => exact led.accepted rfl
  completed := by
    rintro before task after rfl
    obtain ⟨s₁, s₂, led, step⟩ := h.split
    cases step with
    | complete root done => exact ⟨done, _, _, (led.begun rfl).1, root⟩
  fellBack := by
    rintro before now after rfl
    obtain ⟨s₁, s₂, led, step⟩ := h.split
    cases step with
    | fallBack late => exact ⟨_, _, (led.begun rfl).1, late⟩
  above := by
    rintro before i after rfl ⟨g, hg, high⟩
    obtain ⟨s₁, s₂, led, step⟩ := h.split
    cases step with
    | handBelow low =>
      have := low g hg
      omega
    | handAbove =>
      refine ⟨led.countP_begun, ?_⟩
      rcases led.mode rfl with rfl | rfl
      · exact .inl (led.completed_iff.mpr rfl)
      · exact .inr (led.fellBack_iff.mpr rfl)
  settled := by
    rw [h.countP_fellBack]
    unfold fallbacks
    split <;> simp

end Leads
end Passage
end ChainSync
