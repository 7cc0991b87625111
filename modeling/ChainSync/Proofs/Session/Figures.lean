import ChainSync.Proofs.Fetch.Tally
import ChainSync.Proofs.Session.Shape
set_option autoImplicit false

/-!
What an attempt counts, from its origin on: the headers that are there, and of the blocks that were
taken each body once and the receipts up to the pivot.
-/

namespace ChainSync

open Fetch

theorem Insertion.Fits.last_height {shown : Prop} {master : SyncPeer} {target : Nat}
    {origin last : Header} {laid : List Header} {i : Insertion}
    (fits : i.Fits shown master target origin laid) (hlast : i.headers.getLast? = some last) :
    last.height = origin.height + (laid.length + i.headers.length) := by
  have hl := fits.laid
  rw [← List.append_assoc] at hl
  have tip := hl.initial.tip_height
  rwa [List.getLastD_eq_getLast?, List.getLast?_append, hlast, List.length_append] at tip

namespace Attempt

/-- How many of the first `taken` blocks behind the origin are stored with their receipts. -/
def stored (a : Attempt) (start taken : Nat) : Nat :=
  match a.pivot with
  | some pivot => min taken (pivot - start)
  | none => 0

/-- What the counters come to once the local chain took `taken` headers behind an origin of height
`start`, with `ahead` more headers at hand. -/
def due (a : Attempt) (start taken ahead : Nat) : SyncProgress where
  origin := start
  current := start + taken
  target := a.target
  pivot := a.pivot
  headers := taken + ahead
  bodies := if a.mode = .light then 0 else taken
  receipts := a.stored start taken

/-- The pivot is not above this height, if there is one. -/
def Past (a : Attempt) (height : Nat) : Prop := ∀ pivot, a.pivot = some pivot → pivot ≤ height

/-- An attempt that has settled its pivot behind its origin, with `taken` headers taken. -/
structure Agreed (a : Attempt) (start taken : Nat) : Prop where
  snap : a.mode = .snap → ∃ pivot, a.pivot = some pivot
  light : a.mode = .light → a.pivot = none
  above : ∀ pivot, a.pivot = some pivot → start < pivot
  within : a.Past a.target
  full : a.mode = .full → a.Past (start + taken)

/-- How an attempt goes on: as it is, or in full mode behind its pivot. -/
inductive Continues (a : Attempt) (height : Nat) : Attempt → Prop where
  | same : Continues a height a
  | full (snap : a.mode = .snap) (past : a.Past height) : Continues a height { a with mode := .full }

theorem stored_of_past {a : Attempt} {start taken : Nat} (past : a.Past (start + taken))
    (more : Nat) : a.stored start (taken + more) = a.stored start taken := by
  unfold stored
  split
  · rename_i pivot settled
    have := past pivot settled
    omega
  · rfl

theorem stored_of_below {a : Attempt} {start taken pivot : Nat} (settled : a.pivot = some pivot)
    (below : start + taken ≤ pivot) : a.stored start taken = taken := by
  simp only [stored, settled]
  omega

theorem due_start (a : Attempt) (start : Nat) : a.due start 0 0 =
    { origin := start, current := start, target := a.target, pivot := a.pivot } := by
  cases settled : a.pivot <;> simp [due, stored, settled]

theorem due_full {a : Attempt} (snap : a.mode = .snap) (start taken ahead : Nat) :
    ({ a with mode := .full } : Attempt).due start taken ahead = a.due start taken ahead := by
  simp [due, stored, snap]

theorem Continues.agreed {a a' : Attempt} {start taken : Nat}
    (continues : a.Continues (start + taken) a') (agreed : a.Agreed start taken) :
    a'.Agreed start taken := by
  cases continues with
  | same => exact agreed
  | full snap past => exact ⟨by simp, by simp, agreed.above, agreed.within, fun _ => past⟩

/-- In the mode that was asked for, or in full mode where there is no state to be fetched. -/
structure Serves (a : Attempt) (mode : SyncMode) : Prop where
  light : a.mode = .light ↔ mode = .light
  full : mode = .full → a.mode = .full ∧ a.pivot = none

theorem Continues.serves {a a' : Attempt} {height : Nat} {mode : SyncMode}
    (continues : a.Continues height a') (serves : a.Serves mode) : a'.Serves mode := by
  cases continues with
  | same => exact serves
  | full snap past =>
    refine ⟨?_, fun full => ⟨rfl, (serves.full full).2⟩⟩
    rw [← serves.light, snap]
    simp

theorem Agreed.more {a : Attempt} {start taken : Nat} (agreed : a.Agreed start taken) (more : Nat) :
    a.Agreed start (taken + more) := by
  refine ⟨agreed.snap, agreed.light, agreed.above, agreed.within, fun full pivot settled => ?_⟩
  have := agreed.full full pivot settled
  omega

/-- A fetch that has counted so many of the headers. -/
def Supplied {δ : Type} [BlockData δ] (headers : List Header) (count : Nat) (f : BlockFetch δ) :
    Prop :=
  (∃ kept, BlockFetch.Aligned headers kept f) ∧ f.supplied headers = count

/-- Two fetches side by side have each counted what they have. -/
def Abreast (headers : List Header) (before now : SyncProgress) (bodies : Leg (BlockFetch Body))
    (receipts : Leg (BlockFetch (List Receipt))) : Prop :=
  ∃ m n, bodies.Holds (Supplied headers m) ∧ receipts.Holds (Supplied headers n) ∧
    now = BlockData.count Body (BlockData.count (List Receipt) before n) m

/-- The counters while a batch is with the local chain. -/
def Handed (a : Attempt) (start taken : Nat) (now : SyncProgress) (i : Insertion) : Prop :=
  match i.batch with
  | .headers _ =>
    a.mode = .light ∧ i.pivotState = none ∧ i.above = [] ∧ now = a.due start taken i.headers.length
  | .blocks _ =>
    a.mode ≠ .light ∧ a.Executes i.headers ∧ i.pivotState = none ∧ i.above = [] ∧
      now = BlockData.count Body (a.due start taken i.headers.length) i.headers.length
  | .receipts _ _ =>
    a.Divides i.headers i.pivotState i.above ∧
      now = BlockData.count Body (BlockData.count (List Receipt)
        (a.due start taken (i.headers.length + i.above.length)) i.headers.length) i.headers.length

/-- The counters by what an attempt waits for. -/
def Counted (a : Attempt) (start taken : Nat) (now : SyncProgress) : Stage → Prop
  | .ancestor _ => False
  | .skeleton .. => now = a.due start taken 0
  | .fill run => now = a.due start taken run.task.released.length
  | .bodies headers run =>
    a.mode ≠ .light ∧ a.Executes headers ∧
      run.task.Tallied headers (a.due start taken headers.length) now
  | .bodiesAndReceipts headers pivotState above bodies receipts =>
    a.Divides headers pivotState above ∧
      Abreast headers (a.due start taken (headers.length + above.length)) now bodies receipts
  | .state _ above _ _ =>
    a.mode = .snap ∧ a.Past (start + taken) ∧ a.Executes above ∧
      now = a.due start taken above.length
  | .inserting i => a.Handed start taken now i

variable {σ : Type} {a : Attempt} {env : Surroundings} {start taken : Nat} {h h' : Hub σ}

/-- What a step comes to has been counted. -/
structure Counts (a : Attempt) (start taken : Nat) (out : Step σ) : Prop where
  going : ∀ a' stage, out.2 = .ok (some (a', stage)) →
    a.Continues (start + taken) a' ∧ a'.Counted start taken out.1.figures stage
  done : out.2 = .ok none → out.1.figures = a.due start taken 0

namespace Counts

theorem error (err : SyncError) : a.Counts start taken (h, .error err) := ⟨by simp, by simp⟩

theorem wait {stage : Stage} (counted : a.Counted start taken h.figures stage) :
    a.Counts start taken (h, .ok (some (a, stage))) := by
  refine ⟨?_, by simp⟩
  rintro _ _ ⟨⟩
  exact ⟨.same, counted⟩

theorem of_full {out : Step σ} (snap : a.mode = .snap) (past : a.Past (start + taken))
    (counts : ({ a with mode := .full } : Attempt).Counts start taken out) :
    a.Counts start taken out := by
  refine ⟨fun a' stage going => ?_, fun done => ?_⟩
  · obtain ⟨continues, counted⟩ := counts.going a' stage going
    cases continues with
    | same => exact ⟨.full snap past, counted⟩
    | full snap' => cases snap'
  · rw [counts.done done, due_full snap]

end Counts

theorem commit_counts {i : Insertion} (handed : a.Handed start taken h.figures i) :
    a.Counts start taken (a.commit env h i) := by
  unfold commit
  split
  · exact .error _
  · exact .wait handed

theorem checkTotalDifficulty_counts (counted : h.figures = a.due start taken 0) :
    a.Counts start taken (a.checkTotalDifficulty env h) := by
  unfold checkTotalDifficulty
  split
  · exact ⟨by simp, fun _ => counted⟩
  · split
    · exact .error _
    · exact .error _
    · split
      · exact .error _
      · exact ⟨by simp, fun _ => counted⟩

section Import

variable {headers above : List Header} {pivotState : Option Header}

theorem onBodies_counts (heavy : a.mode ≠ .light) (executes : a.Executes headers)
    {out : Run (BlockFetch Body) × Hub σ × Option (Except SyncError Unit)}
    (abides : Run.Abides (fun (f : BlockFetch Body) (board : Board σ) =>
      f.Tallied headers (a.due start taken headers.length) board.progress.figures) h out) :
    a.Counts start taken (a.onBodies env headers out) := by
  obtain ⟨run, h', result⟩ := out
  match result with
  | none => exact .wait ⟨heavy, executes, abides.kept⟩
  | some (.error err) => exact .error err
  | some (.ok ()) =>
    obtain ⟨⟨kept, aligned⟩, counted⟩ := abides.kept
    rw [aligned.supplied_of_done (abides.done rfl)] at counted
    exact commit_counts ⟨heavy, executes, rfl, rfl, counted⟩

theorem importFull_counts (heavy : a.mode ≠ .light) (executes : a.Executes headers)
    (counted : h.figures = a.due start taken headers.length) :
    a.Counts start taken (a.importFull env h headers) := by
  refine onBodies_counts heavy executes (Run.start_abides (BlockFetch.joint_tallied σ headers _) _ _
    env.cancelled ⟨⟨[], BlockFetch.aligned_start ..⟩, ?_⟩)
  rw [← counted]
  exact BlockFetch.figures_begin ..

section Legs

variable {δ : Type} [BlockData δ] {before : SyncProgress}

theorem supplied_of_complete {task : BlockFetch δ} {n : Nat}
    (holds : (Leg.complete task).Holds (Supplied headers n)) : n = headers.length := by
  obtain ⟨⟨⟨kept, aligned⟩, rfl⟩, done⟩ := holds
  exact aligned.supplied_of_done done

/-- A leg that goes on, or one that came to its end, has counted what it has. -/
def LegCounts (headers : List Header) (before : SyncProgress)
    (out : Hub σ × Except SyncError (Leg (BlockFetch δ))) : Prop :=
  ∀ leg, out.2 = .ok leg → ∃ n, leg.Holds (Supplied headers n) ∧
    out.1.figures = BlockData.count δ before n

theorem legOf_counts {out : Run (BlockFetch δ) × Hub σ × Option (Except SyncError Unit)}
    (abides : Run.Abides (fun (f : BlockFetch δ) (board : Board σ) =>
      f.Tallied headers before board.progress.figures) h out) :
    LegCounts headers before (legOf out) := by
  obtain ⟨run, h', result⟩ := out
  obtain ⟨⟨aligned, counted⟩, -, done⟩ := abides
  match result with
  | none =>
    rintro _ ⟨⟩
    exact ⟨_, ⟨aligned, rfl⟩, counted⟩
  | some (.error err) => simp [LegCounts, legOf]
  | some (.ok ()) =>
    rintro _ ⟨⟩
    exact ⟨_, ⟨⟨aligned, rfl⟩, done rfl⟩, counted⟩

variable [LawfulBlockData δ] [FiguredData δ]

theorem startLeg_counts {task : BlockFetch δ}
    (aligned : ∃ kept, BlockFetch.Aligned headers kept task)
    (counted : h.figures = BlockData.count δ before (task.supplied headers)) (cancelled : Bool) :
    LegCounts headers before (legOf (Run.start task h cancelled)) :=
  legOf_counts (Run.start_abides (BlockFetch.joint_tallied σ headers before) task h cancelled
    ⟨aligned, counted⟩)

theorem stepLeg_counts {leg : Leg (BlockFetch δ)} {n : Nat}
    (holds : leg.Holds (Supplied headers n)) (counted : h.figures = BlockData.count δ before n)
    (cancelled : Bool) (signal : Signal) :
    LegCounts headers before (stepLegs.stepLeg cancelled h signal leg) := by
  cases leg with
  | running run =>
    obtain ⟨aligned, rfl⟩ := holds
    exact legOf_counts (Run.step_abides (BlockFetch.joint_tallied σ headers before) run h cancelled
      signal ⟨aligned, counted⟩)
  | complete task =>
    rintro _ ⟨⟩
    exact ⟨n, holds, counted⟩

end Legs

theorem onBoth_counts (divides : a.Divides headers pivotState above)
    {bodies : Leg (BlockFetch Body)} {receipts : Leg (BlockFetch (List Receipt))}
    (abreast : Abreast headers (a.due start taken (headers.length + above.length)) h.figures
      bodies receipts) :
    a.Counts start taken (a.onBoth env h headers pivotState above bodies receipts) := by
  unfold onBoth
  split
  · rename_i bodies receipts
    obtain ⟨m, n, hb, hr, counted⟩ := abreast
    rw [supplied_of_complete hb, supplied_of_complete hr] at counted
    exact commit_counts ⟨divides, counted⟩
  · exact .wait ⟨divides, abreast⟩

theorem startBoth_counts (divides : a.Divides headers pivotState above)
    {bodies : BlockFetch Body} {receipts : BlockFetch (List Receipt)}
    (hb : ∃ kept, BlockFetch.Aligned headers kept bodies)
    (hr : ∃ kept, BlockFetch.Aligned headers kept receipts)
    (counted : h.figures = BlockData.count Body (BlockData.count (List Receipt)
      (a.due start taken (headers.length + above.length)) (receipts.supplied headers))
        (bodies.supplied headers)) :
    a.Counts start taken
      (match legOf (Run.start bodies h env.cancelled) with
      | (h, .error err) => (h, .error err)
      | (h, .ok bodies) =>
        match legOf (Run.start receipts h env.cancelled) with
        | (h, .error err) => (bodies.leave h, .error err)
        | (h, .ok receipts) => a.onBoth env h headers pivotState above bodies receipts) := by
  have first := startLeg_counts hb counted env.cancelled
  generalize legOf (Run.start bodies h env.cancelled) = out at first
  obtain ⟨h', result⟩ := out
  cases result with
  | error err => exact .error err
  | ok bodies =>
    obtain ⟨m, holds, counted⟩ := first bodies rfl
    -- the bodies and the receipts do not get into each other's way
    have second := startLeg_counts (h := h') hr (counted.trans (BlockFetch.count_swap ..))
      env.cancelled
    dsimp only
    generalize legOf (Run.start receipts h' env.cancelled) = out at second
    obtain ⟨h'', result⟩ := out
    cases result with
    | error err => exact .error err
    | ok receipts =>
      obtain ⟨n, holds', counted⟩ := second receipts rfl
      exact onBoth_counts divides ⟨m, n, holds, holds', counted⟩

theorem importFast_counts (divides : a.Divides headers pivotState above)
    (counted : h.figures = a.due start taken (headers.length + above.length)) :
    a.Counts start taken (a.importFast env h headers pivotState above) := by
  refine startBoth_counts divides ⟨[], BlockFetch.aligned_start ..⟩ ⟨[], BlockFetch.aligned_start ..⟩ ?_
  rw [← counted]
  rfl

theorem importSegment_counts (counted : h.figures = a.due start taken headers.length) :
    a.Counts start taken (a.importSegment env h headers) := by
  unfold importSegment
  split
  · rename_i light
    exact commit_counts ⟨light, rfl, rfl, counted⟩
  · rename_i full
    exact importFull_counts (by simp [full]) (fun snap => by simp [full] at snap) counted
  · rename_i snap
    dsimp only
    have hsplit : headers.takeWhile (fun x => decide (x.height ≤ a.border)) ++
        headers.dropWhile (fun x => decide (x.height ≤ a.border)) = headers :=
      List.takeWhile_append_dropWhile
    split
    · rename_i last hlast
      refine importFast_counts (divides_segment snap hlast) ?_
      rw [counted, ← List.length_append]
      exact congrArg (fun hs => a.due start taken (List.length hs)) hsplit.symm
    · rename_i hlast
      have none : headers.takeWhile (fun x => decide (x.height ≤ a.border)) = [] :=
        List.getLast?_eq_none_iff.mp hlast
      rw [none, List.nil_append] at hsplit
      refine importFull_counts (by simp [snap]) (fun _ _ => border_lt_of_dropWhile) ?_
      rw [counted]
      exact congrArg (fun hs => a.due start taken (List.length hs)) hsplit.symm

end Import

section Segments

theorem onFill_counts {out : Run HeaderFill × Hub σ × Option (Except SyncError Unit)}
    (abides : Run.Abides (fun (f : HeaderFill) (board : Board σ) =>
      board.progress.figures = a.due start taken f.released.length) h out) :
    a.Counts start taken (a.onFill env out) := by
  obtain ⟨run, h', result⟩ := out
  have counted : h'.figures = a.due start taken run.task.released.length := abides.kept
  match result with
  | none => exact .wait counted
  | some (.error err) => exact .error err
  | some (.ok ()) =>
    simp only [onFill]
    split
    · rename_i nothing
      rw [List.isEmpty_iff.mp nothing] at counted
      exact checkTotalDifficulty_counts counted
    · exact importSegment_counts counted

theorem onSkeleton_counts (counted : h.figures = a.due start taken 0) (origin : Header) (stop : Nat)
    {out : Hub σ × Except SyncError (SkeletonFetch ⊕ List Header)} (wanes : h.Wanes out.1) :
    a.Counts start taken (a.onSkeleton env origin stop out) := by
  obtain ⟨h', result⟩ := out
  rw [← wanes.figures] at counted
  match result with
  | .error err => exact .error err
  | .ok (.inl fetch) => exact .wait counted
  | .ok (.inr skeleton) =>
    simp only [onSkeleton, fillSkeleton]
    split
    · exact .error _
    · exact onFill_counts (Run.start_abides (HeaderFill.joint_tallied σ (a.due start taken 0)) _ _
        env.cancelled counted)

theorem nextSegment_counts (counted : h.figures = a.due start taken 0) (last : Header) :
    a.Counts start taken (a.nextSegment env h last) := by
  unfold nextSegment
  split
  · exact onSkeleton_counts (h := h.setPhase .fetchingHeaders) counted _ _
      (SkeletonFetch.advance_wanes ..)
  · exact checkTotalDifficulty_counts counted

theorem continueAbove_counts {above : List Header} (heavy : a.mode ≠ .light)
    (executes : a.Executes above) (counted : h.figures = a.due start taken above.length)
    (last : Header) : a.Counts start taken (a.continueAbove env h last above) := by
  unfold continueAbove
  split
  · rename_i nothing
    rw [List.isEmpty_iff.mp nothing] at counted
    exact nextSegment_counts counted last
  · exact importFull_counts heavy executes counted

end Segments

/-- The counters begin anew at every origin. -/
theorem fromAncestor_counts {mode : SyncMode} (serves : a.Serves mode) (origin : Header) :
    ∃ b : Attempt, b.master = a.master ∧ b.target = a.target ∧ b.Serves mode ∧
      b.Agreed origin.height 0 ∧ b.Counts origin.height 0 (a.fromAncestor env h origin) := by
  unfold fromAncestor
  dsimp only
  generalize hsettled : (if a.mode = SyncMode.snap then _ else _ : Attempt) = b
  generalize hopened : h.setProgress _ = opened
  have counted : opened.figures = b.due origin.height 0 0 := by
    rw [← hopened, due_start]
    rfl
  have settled : b.master = a.master ∧ b.target = a.target ∧ b.Serves mode ∧
      b.Agreed origin.height 0 := by
    rw [← hsettled]
    split
    · rename_i snap
      have heavy : mode ≠ .light := fun light => by simp [serves.light.mpr light] at snap
      have unsettled : mode ≠ .full := fun full => by simp [(serves.full full).1] at snap
      split
      · rename_i above
        exact ⟨rfl, rfl, ⟨by simp [snap, heavy], by simp [unsettled]⟩,
          ⟨by simp, by simp [snap], by simpa using above, by simp [Past], by simp [snap]⟩⟩
      · exact ⟨rfl, rfl, ⟨by simp [heavy], by simp⟩,
          ⟨by simp, by simp, by simp, by simp [Past], by simp [Past]⟩⟩
    · rename_i other
      exact ⟨rfl, rfl, ⟨serves.light, fun full => ⟨(serves.full full).1, rfl⟩⟩,
        ⟨by simp [other], by simp, by simp, by simp [Past], by simp [Past]⟩⟩
  obtain ⟨master, target, serves, agreed⟩ := settled
  exact ⟨b, master, target, serves, agreed, nextSegment_counts counted origin⟩

section State

variable {above : List Header}

theorem continueFull_counts (snap : a.mode = .snap) (past : a.Past (start + taken))
    (counted : h.figures = a.due start taken above.length) (pivot : Header) :
    a.Counts start taken
      (({ a with mode := .full } : Attempt).continueAbove env h pivot above) := by
  refine .of_full snap past (continueAbove_counts (by simp) (fun snap => by simp at snap) ?_ pivot)
  rw [counted, due_full snap]

theorem onState_counts (snap : a.mode = .snap) (past : a.Past (start + taken))
    (executes : a.Executes above) (pivot : Header) (expires : Nat)
    {out : Run StateDownload × Hub σ × Option (Except SyncError Unit)}
    (counted : out.2.1.figures = a.due start taken above.length) :
    a.Counts start taken (a.onState env pivot above expires out) := by
  obtain ⟨run, h', result⟩ := out
  match result with
  | none =>
    simp only [onState]
    split
    · unfold fallBack
      refine continueFull_counts snap past ?_ pivot
      exact counted
    · exact .wait ⟨snap, past, executes, counted⟩
  | some (.error err) => exact .error err
  | some (.ok ()) => exact continueAbove_counts (by simp [snap]) executes counted pivot

variable [NodeStore σ]

theorem fetchState_counts (snap : a.mode = .snap) (past : a.Past (start + taken))
    (executes : a.Executes above) (counted : h.figures = a.due start taken above.length)
    (pivot : Header) : a.Counts start taken (a.fetchState env h pivot above) := by
  unfold fetchState
  split
  · exact continueFull_counts snap past counted pivot
  · split
    · exact .error _
    · dsimp only
      split
      · exact .error _
      · rename_i task _
        exact onState_counts snap past executes pivot _
          (Run.start_abides (h := (h.setPhase .fetchingState).setProgress task.report)
            (StateDownload.joint_untallied _) task env.cancelled counted).kept

omit [NodeStore σ] in
/-- A batch that the local chain takes leaves the counters where they should be. -/
theorem Handed.figures {shown : Prop} {master : SyncPeer} {target : Nat} {origin last : Header}
    {laid : List Header} {i : Insertion} {now : SyncProgress}
    (fits : i.Fits shown master target origin laid)
    (agreed : a.Agreed origin.height laid.length)
    (handed : a.Handed origin.height laid.length now i) (hlast : i.headers.getLast? = some last) :
    { now with current := last.height } =
      a.due origin.height (laid.length + i.headers.length) i.above.length := by
  have top := fits.last_height hlast
  obtain ⟨first, rest, hheaders⟩ := List.exists_cons_of_ne_nil fits.nonempty
  have next : first.height = origin.height + laid.length + 1 := by
    rw [← fits.laid.initial.tip_height]
    exact fits.laid.head_height (by rw [hheaders]; rfl)
  unfold Handed at handed
  split at handed
  · obtain ⟨light, -, above, rfl⟩ := handed
    simp [due, stored, light, agreed.light light, above, top]
  · obtain ⟨heavy, executes, -, above, rfl⟩ := handed
    have past : a.Past (origin.height + laid.length) := by
      cases mode : a.mode with
      | light => exact absurd mode heavy
      | full => exact agreed.full mode
      | snap =>
        intro pivot settled
        have := executes mode first (by rw [hheaders]; rfl)
        rw [border_of_pivot settled] at this
        omega
    simp [due, BlockData.count, heavy, stored_of_past past, above, top]
  · obtain ⟨divides, rfl⟩ := handed
    obtain ⟨pivot, settled⟩ := agreed.snap divides.snap
    have low := divides.below last (List.mem_of_getLast? hlast)
    rw [border_of_pivot settled, top] at low
    have before : origin.height + laid.length ≤ pivot := by omega
    simp [due, BlockData.count, divides.snap, stored_of_below settled low,
      stored_of_below settled before, top, Nat.add_assoc]

theorem accepted_counts {shown : Prop} {master : SyncPeer} {target : Nat} {origin last : Header}
    {laid : List Header} {i : Insertion} (fits : i.Fits shown master target origin laid)
    (agreed : a.Agreed origin.height laid.length)
    (handed : a.Handed origin.height laid.length h.figures i)
    (hlast : i.headers.getLast? = some last) :
    a.Counts origin.height (laid.length + i.headers.length) (a.accepted env h i last) := by
  have counted : (published h last).figures =
      a.due origin.height (laid.length + i.headers.length) i.above.length :=
    handed.figures fits agreed hlast
  unfold Handed at handed
  have continued (final : i.pivotState = none) (above : i.above = []) :
      a.Counts origin.height (laid.length + i.headers.length) (a.accepted env h i last) := by
    rw [above] at counted
    simp only [accepted, final, above]
    exact nextSegment_counts counted last
  split at handed
  · obtain ⟨-, final, above, -⟩ := handed
    exact continued final above
  · obtain ⟨-, -, final, above, -⟩ := handed
    exact continued final above
  · obtain ⟨divides, -⟩ := handed
    have executes : a.Executes i.above := fun _ => divides.above
    have state := divides.pivot last hlast
    unfold accepted
    dsimp only
    split
    · rename_i pivot reached
      have height : last.height = a.border := by
        rw [state] at reached
        split at reached
        · assumption
        · cases reached
      refine fetchState_counts divides.snap (fun b settled => ?_) executes counted pivot
      rw [border_of_pivot settled] at height
      rw [← height, fits.last_height hlast]
    · exact continueAbove_counts (by simp [divides.snap]) executes counted last

theorem landed_counts {shown : Prop} {master : SyncPeer} {target : Nat} {origin : Header}
    {laid : List Header} {i : Insertion} (fits : i.Fits shown master target origin laid)
    (agreed : a.Agreed origin.height laid.length)
    (handed : a.Handed origin.height laid.length h.figures i) :
    a.Counts origin.height (laid.length + i.headers.length) (a.landed env h i (.ok ())) := by
  obtain ⟨last, hlast⟩ : ∃ last, i.headers.getLast? = some last :=
    ⟨_, List.getLast?_eq_getLast_of_ne_nil fits.nonempty⟩
  simp only [landed, hlast]
  exact accepted_counts fits agreed handed hlast

end State

section Legs

variable {headers above : List Header} {pivotState : Option Header}
  {bodies : Leg (BlockFetch Body)} {receipts : Leg (BlockFetch (List Receipt))}
  {before : SyncProgress}

theorem stepLegs_counts (abreast : Abreast headers before h.figures bodies receipts)
    (cancelled : Bool) (forBodies forReceipts : Signal) :
    ∀ legs, (stepLegs h cancelled forBodies forReceipts bodies receipts).2 = .ok legs →
      Abreast headers before (stepLegs h cancelled forBodies forReceipts bodies receipts).1.figures
        legs.1 legs.2 := by
  intro legs going
  obtain ⟨m, n, hb, hr, counted⟩ := abreast
  have first := stepLeg_counts hb counted cancelled forBodies
  unfold stepLegs at going ⊢
  generalize stepLegs.stepLeg cancelled h forBodies bodies = out at first going ⊢
  obtain ⟨h', result⟩ := out
  cases result with
  | error err => cases going
  | ok bodies =>
    obtain ⟨m, hb, counted⟩ := first bodies rfl
    have second := stepLeg_counts (h := h') hr (counted.trans (BlockFetch.count_swap ..)) cancelled
      forReceipts
    dsimp only at going ⊢
    generalize stepLegs.stepLeg cancelled h' forReceipts receipts = out at second going ⊢
    obtain ⟨h'', result⟩ := out
    cases result with
    | error err => cases going
    | ok receipts =>
      cases going
      obtain ⟨n, hr, counted⟩ := second receipts rfl
      exact ⟨m, n, hb, hr, counted⟩

theorem stepBoth_counts (divides : a.Divides headers pivotState above)
    (abreast : Abreast headers (a.due start taken (headers.length + above.length)) h.figures
      bodies receipts) (signal : Signal) :
    a.Counts start taken (a.stepBoth env h headers pivotState above bodies receipts signal) := by
  unfold stepBoth
  generalize shareSignal h bodies receipts signal = signals
  obtain ⟨forBodies, forReceipts⟩ := signals
  have one := stepLegs_counts abreast env.cancelled forBodies forReceipts
  dsimp only
  generalize stepLegs h env.cancelled forBodies forReceipts bodies receipts = out at one ⊢
  obtain ⟨h', result⟩ := out
  cases result with
  | error err => exact .error err
  | ok legs =>
    have two := stepLegs_counts (one legs rfl) env.cancelled .woken .woken
    dsimp only at two ⊢
    generalize stepLegs h' env.cancelled .woken .woken legs.1 legs.2 = out at two ⊢
    obtain ⟨h'', result⟩ := out
    cases result with
    | error err => exact .error err
    | ok legs => exact onBoth_counts divides (two legs rfl)

end Legs

variable [NodeStore σ]

/-- Behind its origin an attempt has always counted what it has. -/
theorem step_counts {stage : Stage} (counted : a.Counted start taken h.figures stage)
    (signal : Signal) : a.Counts start taken (a.step env h stage signal) := by
  cases stage with
  | ancestor search => exact counted.elim
  | skeleton base stop fetch => exact onSkeleton_counts counted _ _ (fetch.step_wanes ..)
  | fill run =>
    exact onFill_counts (Run.step_abides (HeaderFill.joint_tallied σ (a.due start taken 0)) run h
      env.cancelled signal counted)
  | bodies headers run =>
    obtain ⟨heavy, executes, kept⟩ := counted
    exact onBodies_counts heavy executes (Run.step_abides (BlockFetch.joint_tallied σ headers _) run
      h env.cancelled signal kept)
  | bodiesAndReceipts headers pivotState above bodies receipts =>
    exact stepBoth_counts counted.1 counted.2 signal
  | state pivot above run expires =>
    obtain ⟨snap, past, executes, counted⟩ := counted
    have told (signal : Signal) :
        a.Counts start taken (a.onState env pivot above expires
          (run.step h env.cancelled signal)) :=
      onState_counts snap past executes pivot expires (Run.step_abides
        (StateDownload.joint_untallied _) run h env.cancelled signal counted).kept
    cases signal with
    | deadline =>
      simp only [step]
      split
      · exact told .deadline
      · exact onState_counts snap past executes pivot expires counted
    | woken => exact told .woken
    | ended ticket ending => exact told (.ended ticket ending)
  | inserting i => exact .wait counted

end Attempt
end ChainSync
