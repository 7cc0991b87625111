import ChainSync.Proofs.Session.Segment
set_option autoImplicit false

/-!
What an attempt waits for always fits the chain that it has laid. One lemma for each of its steps,
from the last of a segment to the first.
-/

namespace ChainSync

open Fetch

namespace Config

variable {c : Config} {number : UInt64} {target : Nat}

theorem pos_of_validate (valid : c.validate = .ok ()) {field : String} {n : Nat}
    (h : (field, n) ∈ c.sizes) : 0 < n := by
  unfold validate at valid
  split at valid
  · cases valid
  · rename_i hnone
    have := List.find?_eq_none.mp hnone _ h
    simp only [beq_iff_eq] at this
    omega

theorem segment_pos (valid : c.validate = .ok ()) :
    0 < c.headerBatchSize.toNat ∧ 0 < c.headerBatchSize.toNat * c.skeletonSize.toNat := by
  have batch : ("header_batch_size", c.headerBatchSize.toNat) ∈ c.sizes := by simp [sizes]
  have skeleton : ("skeleton_size", c.skeletonSize.toNat) ∈ c.sizes := by simp [sizes]
  have hbatch := pos_of_validate valid batch
  exact ⟨hbatch, Nat.mul_pos hbatch (pos_of_validate valid skeleton)⟩

/-- The end of a segment that begins behind block `number`, as long as it fits 64 bits. -/
theorem toNat_segment_end
    (fits : number.toNat + c.headerBatchSize.toNat * c.skeletonSize.toNat < 2 ^ 64) :
    (number + c.segmentLength).toNat =
      number.toNat + c.headerBatchSize.toNat * c.skeletonSize.toNat := by
  rw [UInt64.toNat_add, segmentLength, UInt64.toNat_mul, Nat.add_mod_mod, Nat.mod_eq_of_lt fits]

/-- Why there is no way on from block `number`, although it is below the target: a segment behind it
overflows 64 bits, and ends no higher than the block itself. -/
structure StopsShort (c : Config) (number : UInt64) (target : Nat) : Prop where
  below : number.toNat < target
  overflows : 2 ^ 64 ≤ number.toNat + c.headerBatchSize.toNat * c.skeletonSize.toNat
  wraps : number + c.segmentLength ≤ number

/-- A segment that does not get ahead has wrapped around. -/
theorem stopsShort_of_le (valid : c.validate = .ok ()) (below : number.toNat < target)
    (low : min target (number + c.segmentLength).toNat ≤ number.toNat) :
    c.StopsShort number target := by
  have wraps : (number + c.segmentLength).toNat ≤ number.toNat := by omega
  refine ⟨below, Nat.le_of_not_lt fun fits => ?_, UInt64.le_iff_toNat_le.mpr wraps⟩
  have length := (segment_pos valid).2
  have segment_end := toNat_segment_end fits
  omega

theorem not_stopsShort
    (fits : target + c.headerBatchSize.toNat * c.skeletonSize.toNat ≤ 2 ^ 64) :
    ¬ c.StopsShort number target := by
  rintro ⟨below, overflows, -⟩
  omega

end Config

/-- The task of a leg, run to its end or not. -/
def Leg.Holds {τ : Type} [Workload τ] (P : τ → Prop) : Leg τ → Prop
  | .running run => P run.task
  | .complete task => P task ∧ Workload.isDone task

/-- The header is the head that the peer advertised. -/
def SyncPeer.Advertised (p : SyncPeer) (h : Header) : Prop :=
  h.height = p.info.head.toNat ∧ h.hash = p.info.headHash

/-- A batch that continues the chain, with what is to come behind it. -/
structure Insertion.Fits (shown : Prop) (master : SyncPeer) (target : Nat) (origin : Header)
    (laid : List Header) (i : Insertion) : Prop where
  nonempty : i.headers ≠ []
  batch : i.batch.headersOf = i.headers
  laid : Laid shown master target origin (laid ++ (i.headers ++ i.above))
  pivot : ∀ p, i.pivotState = some p → i.headers.getLast? = some p
  backed : ∀ blocks receipts, i.batch = .receipts blocks receipts →
    List.Forall₂ (fun header items => header.checkReceipts items = .ok ()) i.headers receipts

namespace Attempt

/-- What fits the headers that the local chain has taken since the origin. -/
def Waiting (shown : Prop) (master : SyncPeer) (target : Nat) (origin : Header)
    (laid : List Header) : Stage → Prop
  | .ancestor _ => False
  | .skeleton base stop fetch =>
    Laid shown master target origin laid ∧ base = laid.getLastD origin ∧ base.height < stop ∧
      stop ≤ target ∧ fetch.start = base.height ∧ fetch.stop = stop ∧ 0 < fetch.size ∧
        ∀ g ∈ fetch.received, master.Advertised g → shown
  | .fill run =>
    ∃ engine skeleton last, Laid shown master target origin laid ∧
      (laid.getLastD origin :: skeleton).Pairwise (·.height < ·.height) ∧
      skeleton.getLast? = some last ∧ last.height ≤ target ∧
      (last.height = master.info.head.toNat → last.hash = master.info.headHash ∧ shown) ∧
      ∃ sent, HeaderFill.Filling engine (laid.getLastD origin) skeleton sent
        ((laid.getLastD origin).height + 1) (last.height + 1) run.task
  | .bodies headers run =>
    headers ≠ [] ∧ Laid shown master target origin (laid ++ headers) ∧
      ∃ kept, BlockFetch.Aligned headers kept run.task
  | .bodiesAndReceipts headers pivotState above bodies receipts =>
    headers ≠ [] ∧ Laid shown master target origin (laid ++ (headers ++ above)) ∧
      (∀ p, pivotState = some p → headers.getLast? = some p) ∧
      bodies.Holds (fun f => ∃ kept, BlockFetch.Aligned headers kept f) ∧
      receipts.Holds (fun f => ∃ kept, BlockFetch.Aligned headers kept f)
  | .state pivot above _ _ =>
    pivot = laid.getLastD origin ∧ Laid shown master target origin (laid ++ above)
  | .inserting i => i.Fits shown master target origin laid

/-- Nothing is laid behind this header any more. -/
def Stops (config : Config) (target : Nat) (tip : Header) : Prop :=
  target ≤ tip.height ∨ config.StopsShort tip.number target

theorem Stops.of_le {config : Config} {target lower : Nat} {tip : Header}
    (stops : Stops config target tip) (bound : lower ≤ target) : Stops config lower tip := by
  rcases stops with reached | short
  · exact .inl (bound.trans reached)
  · rcases Nat.lt_or_ge tip.height lower with below | reached
    · exact .inr ⟨below, short.overflows, short.wraps⟩
    · exact .inl reached

/-- Nothing is left to be laid, and the chain is as heavy as the master said if the target is its
head. -/
structure Finished (shown : Prop) (master : SyncPeer) (target : Nat) (config : Config)
    (view : ChainView) (origin : Header) (laid : List Header) : Prop where
  chain : Laid shown master target origin laid
  stops : Stops config target (laid.getLastD origin)
  heavy : target = master.info.head.toNat →
    ∃ total, view.totalDifficulty master.info.headHash = .ok (some total) ∧
      master.info.totalDifficulty.toNat ≤ total.toNat

/-- Nothing is left to be laid, and the local chain does not know the head that the master
advertised. -/
structure Unknown (shown : Prop) (master : SyncPeer) (target : Nat) (config : Config)
    (view : ChainView) (origin : Header) (laid : List Header) : Prop where
  chain : Laid shown master target origin laid
  stops : Stops config target (laid.getLastD origin)
  head : target = master.info.head.toNat
  missing : view.totalDifficulty master.info.headHash = .ok none

/-- A chain that has come as far as the target ends in the advertised head, if that is the target,
unless nothing had to be laid. -/
theorem top_of_laid {shown : Prop} {master : SyncPeer} {target : Nat} {origin : Header}
    {laid : List Header} (hl : Laid shown master target origin laid)
    (reached : target ≤ (laid.getLastD origin).height) :
    target ≤ origin.height ∧ laid = [] ∨ ∃ last, laid.getLast? = some last ∧ last.height = target ∧
      (target = master.info.head.toNat → last.hash = master.info.headHash ∧ shown) := by
  rw [List.getLastD_eq_getLast?] at reached
  cases hlast : laid.getLast? with
  | none =>
    rw [hlast] at reached
    exact .inl ⟨reached, List.getLast?_eq_none_iff.mp hlast⟩
  | some last =>
    rw [hlast] at reached
    have hmem := List.mem_of_getLast? hlast
    have hheight : last.height = target := Nat.le_antisymm (hl.bounded last hmem) reached
    exact .inr ⟨last, rfl, hheight, fun head => hl.crowned last hmem (hheight.trans head)⟩

/-- A chain without the advertised head, or with one that the master never showed, only ends at that
target if nothing had to be laid. -/
theorem Stops.without_head {shown : Prop} {master : SyncPeer} {target : Nat} {config : Config}
    {origin : Header} {laid : List Header} (stops : Stops config target (laid.getLastD origin))
    (hl : Laid shown master target origin laid) (head : target = master.info.head.toNat)
    (unshown : ∀ last ∈ laid, last.hash = master.info.headHash → ¬ shown) :
    target ≤ origin.height ∨ config.StopsShort (laid.getLastD origin).number target := by
  refine stops.imp_left fun reached => ?_
  rcases top_of_laid hl reached with ⟨below, -⟩ | ⟨last, hlast, -, crowned⟩
  · exact below
  · obtain ⟨hash, told⟩ := crowned head
    exact absurd told (unshown last (List.mem_of_getLast? hlast) hash)

theorem Finished.reached {shown : Prop} {master : SyncPeer} {target : Nat} {config : Config}
    {view : ChainView} {origin : Header} {laid : List Header}
    (h : Finished shown master target config view origin laid) :
    target ≤ origin.height ∧ laid = [] ∨
      (∃ last, laid.getLast? = some last ∧ last.height = target ∧
        (target = master.info.head.toNat → last.hash = master.info.headHash)) ∨
      config.StopsShort (laid.getLastD origin).number target := by
  rcases h.stops with reached | short
  · rcases top_of_laid h.chain reached with nothing | ⟨last, hlast, height, crowned⟩
    · exact .inl nothing
    · exact .inr (.inl ⟨last, hlast, height, fun head => (crowned head).1⟩)
  · exact .inr (.inr short)

variable {σ : Type} {shown : Prop} {a : Attempt} {env : Surroundings} {origin : Header}
  {laid : List Header} {h : Hub σ}

/-- What a step of an attempt that has laid headers behind its origin comes to. -/
structure Sound (shown : Prop) (a : Attempt) (env : Surroundings) (origin : Header)
    (laid : List Header) (h : Hub σ) (out : Step σ) : Prop where
  quiet : h.Quiet out.1
  waiting : ∀ a' stage, out.2 = .ok (some (a', stage)) →
    a'.master = a.master ∧ a'.target = a.target ∧ Waiting shown a.master a.target origin laid stage
  finished : out.2 = .ok none →
    Finished shown a.master a.target h.peers.config env.view origin laid
  unknown : ∀ hash, out.2 = .error (.unknownBlock hash) →
    Unknown shown a.master a.target h.peers.config env.view origin laid

namespace Sound

theorem error {h' : Hub σ} (quiet : h.Quiet h') {err : SyncError}
    (known : ∀ hash, err ≠ .unknownBlock hash) : Sound shown a env origin laid h (h', .error err) :=
  ⟨quiet, by simp, by simp, by simpa using fun hash heq => absurd heq (known hash)⟩

theorem wait {h' : Hub σ} (quiet : h.Quiet h') {stage : Stage}
    (waiting : Waiting shown a.master a.target origin laid stage) :
    Sound shown a env origin laid h (h', .ok (some (a, stage))) := by
  refine ⟨quiet, fun a' stage' heq => ?_, by simp, by simp⟩
  simp only [Except.ok.injEq, Option.some.injEq, Prod.mk.injEq] at heq
  obtain ⟨rfl, rfl⟩ := heq
  exact ⟨rfl, rfl, waiting⟩

theorem after {h' : Hub σ} {out : Step σ} (sound : Sound shown a env origin laid h' out)
    (quiet : h.Quiet h') : Sound shown a env origin laid h out := by
  obtain ⟨quiet', waiting, finished, unknown⟩ := sound
  rw [quiet.config] at finished unknown
  exact ⟨quiet.trans quiet', waiting, finished, unknown⟩

/-- Neither the mode nor the pivot of an attempt matters. -/
theorem of_same {a' : Attempt} {out : Step σ} (sound : Sound shown a' env origin laid h out)
    (hmaster : a'.master = a.master) (htarget : a'.target = a.target) :
    Sound shown a env origin laid h out := by
  obtain ⟨quiet, waiting, finished, unknown⟩ := sound
  rw [hmaster, htarget] at waiting finished unknown
  exact ⟨quiet, waiting, finished, unknown⟩

end Sound

theorem laid_of_waiting {master : SyncPeer} {target : Nat} {stage : Stage}
    (waiting : Waiting shown master target origin laid stage) :
    Laid shown master target origin laid := by
  cases stage with
  | ancestor search => exact waiting.elim
  | skeleton base stop fetch => exact waiting.1
  | fill run =>
    obtain ⟨_, _, _, hl, -⟩ := waiting
    exact hl
  | bodies headers run => exact waiting.2.1.initial
  | bodiesAndReceipts headers pivotState above bodies receipts => exact waiting.2.1.initial
  | state pivot above run expires => exact waiting.2.initial
  | inserting i => exact Insertion.Fits.laid waiting |>.initial

theorem checkTotalDifficulty_sound (hl : Laid shown a.master a.target origin laid)
    (stops : Stops h.peers.config a.target (laid.getLastD origin)) :
    Sound shown a env origin laid h (a.checkTotalDifficulty env h) := by
  unfold checkTotalDifficulty
  split
  · rename_i hne
    exact ⟨.refl h, by simp, fun _ => ⟨hl, stops, fun heq => absurd heq hne⟩, by simp⟩
  · rename_i head
    split
    · exact .error (.refl h) (by simp)
    · rename_i missing
      exact ⟨.refl h, by simp, by simp,
        fun _ _ => ⟨hl, stops, Decidable.not_not.mp head, missing⟩⟩
    · rename_i total htotal
      split
      · exact .error (.refl h) (by simp)
      · rename_i hheavy
        exact ⟨.refl h, by simp, fun _ => ⟨hl, stops, fun _ => ⟨total, htotal, by omega⟩⟩,
          by simp⟩

theorem commit_sound {i : Insertion} (fits : i.Fits shown a.master a.target origin laid) :
    Sound shown a env origin laid h (a.commit env h i) := by
  unfold commit
  split
  · exact .error (.refl h) (by simp)
  · exact .wait (.setPhase ..) fits

section Import

variable {headers above : List Header} {pivotState : Option Header}

theorem onBodies_sound (hne : headers ≠ [])
    (hl : Laid shown a.master a.target origin (laid ++ headers))
    {out : Run (BlockFetch Body) × Hub σ × Option (Except SyncError Unit)}
    (run : Run.Sound (fun f => ∃ kept, BlockFetch.Aligned headers kept f) h out) :
    Sound shown a env origin laid h (a.onBodies env headers out) := by
  obtain ⟨r, h', result⟩ := out
  match result with
  | none => exact .wait run.quiet ⟨hne, hl, run.kept⟩
  | some (.error err) => exact .error run.quiet (by simpa using run.known)
  | some (.ok ()) =>
    obtain ⟨kept, aligned⟩ := run.kept
    have hlen := aligned.length_output (run.done rfl)
    have fits : Insertion.Fits shown a.master a.target origin laid
        { category := .bodies, batch := .blocks (assemble headers r.task.output), headers
          deliveredBy := r.task.deliveredBy, pivotState := none, above := [] } :=
      ⟨hne, BlockFetch.headersOf_assemble hlen, by rwa [List.append_nil], by simp, by simp⟩
    exact (commit_sound fits).after run.quiet

theorem importFull_sound (hne : headers ≠ [])
    (hl : Laid shown a.master a.target origin (laid ++ headers)) :
    Sound shown a env origin laid h (a.importFull env h headers) := by
  have started : h.Quiet ((h.setPhase .fetchingBodiesAndReceipts).setProgress fun _ =>
      (BlockFetch.begin env.session headers h.peers.config.maxBlockBodies.toNat
        (h.setPhase .fetchingBodiesAndReceipts).board.progress :
          BlockFetch Body × SyncProgress).2) := ⟨rfl, rfl, rfl, rfl⟩
  exact (onBodies_sound hne hl (Run.start_sound (BlockFetch.lasting_aligned σ headers) _ _
    env.cancelled ⟨[], BlockFetch.aligned_start ..⟩)).after started

/-- A leg that goes on, or one that came to its end, unless it failed. -/
structure LegSound {τ : Type} [Workload τ] (P : τ → Prop) (h : Hub σ)
    (out : Hub σ × Except SyncError (Leg τ)) : Prop where
  quiet : h.Quiet out.1
  holds : ∀ leg, out.2 = .ok leg → leg.Holds P
  known : ∀ hash, out.2 ≠ .error (.unknownBlock hash)

theorem legOf_sound {τ : Type} [Workload τ] {P : τ → Prop}
    {out : Run τ × Hub σ × Option (Except SyncError Unit)} (run : Run.Sound P h out) :
    LegSound P h (legOf out) := by
  obtain ⟨r, h', result⟩ := out
  match result with
  | none =>
    refine ⟨run.quiet, fun leg hleg => ?_, by simp [legOf]⟩
    cases hleg
    exact run.kept
  | some (.ok ()) =>
    refine ⟨run.quiet, fun leg hleg => ?_, by simp [legOf]⟩
    cases hleg
    exact ⟨run.kept, run.done rfl⟩
  | some (.error err) => exact ⟨run.quiet, by simp [legOf], by simpa [legOf] using run.known⟩

theorem leave_quiet {τ : Type} (h : Hub σ) (leg : Leg τ) : h.Quiet (leg.leave h) := by
  cases leg with
  | running run => exact .leave h run
  | complete task => exact .refl h

theorem onBoth_sound (hne : headers ≠ [])
    (hl : Laid shown a.master a.target origin (laid ++ (headers ++ above)))
    (hpivot : ∀ p, pivotState = some p → headers.getLast? = some p)
    {bodies : Leg (BlockFetch Body)} {receipts : Leg (BlockFetch (List Receipt))}
    (hb : bodies.Holds fun f => ∃ kept, BlockFetch.Aligned headers kept f)
    (hr : receipts.Holds fun f => ∃ kept, BlockFetch.Aligned headers kept f) :
    Sound shown a env origin laid h (a.onBoth env h headers pivotState above bodies receipts) := by
  unfold onBoth
  split
  · rename_i bodies receipts
    obtain ⟨⟨kept, aligned⟩, done⟩ := hb
    obtain ⟨⟨kept', aligned'⟩, done'⟩ := hr
    have fits : Insertion.Fits shown a.master a.target origin laid
        { category := .receipts
          batch := .receipts (assemble headers bodies.output) receipts.output
          headers
          deliveredBy := bodies.deliveredBy.zipWith (fun body receipt => body.or receipt)
            receipts.deliveredBy
          pivotState
          above } :=
      ⟨hne, BlockFetch.headersOf_assemble (aligned.length_output done), hl, hpivot, by
        rintro _ _ ⟨⟩
        exact aligned'.backed done'⟩
    exact commit_sound fits
  · exact .wait (.refl h) ⟨hne, hl, hpivot, hb, hr⟩

theorem startBoth_sound (hne : headers ≠ [])
    (hl : Laid shown a.master a.target origin (laid ++ (headers ++ above)))
    (hpivot : ∀ p, pivotState = some p → headers.getLast? = some p)
    {bodies : BlockFetch Body} {receipts : BlockFetch (List Receipt)}
    (hb : ∃ kept, BlockFetch.Aligned headers kept bodies)
    (hr : ∃ kept, BlockFetch.Aligned headers kept receipts) :
    Sound shown a env origin laid h
      (match legOf (Run.start bodies h env.cancelled) with
      | (h, .error err) => (h, .error err)
      | (h, .ok bodies) =>
        match legOf (Run.start receipts h env.cancelled) with
        | (h, .error err) => (bodies.leave h, .error err)
        | (h, .ok receipts) => a.onBoth env h headers pivotState above bodies receipts) := by
  have first := legOf_sound (Run.start_sound (BlockFetch.lasting_aligned σ headers) bodies h
    env.cancelled hb)
  generalize legOf (Run.start bodies h env.cancelled) = out at first
  obtain ⟨h', result⟩ := out
  cases result with
  | error err => exact .error first.quiet (by simpa using first.known)
  | ok bodies =>
    have second := legOf_sound (Run.start_sound (BlockFetch.lasting_aligned σ headers) receipts h'
      env.cancelled hr)
    dsimp only
    generalize legOf (Run.start receipts h' env.cancelled) = out at second
    obtain ⟨h'', result⟩ := out
    have quiet : h.Quiet h'' := first.quiet.trans second.quiet
    cases result with
    | error err => exact .error (quiet.trans (leave_quiet ..)) (by simpa using second.known)
    | ok receipts =>
      exact (onBoth_sound hne hl hpivot (first.holds _ rfl) (second.holds _ rfl)).after quiet

theorem importFast_sound (hne : headers ≠ [])
    (hl : Laid shown a.master a.target origin (laid ++ (headers ++ above)))
    (hpivot : ∀ p, pivotState = some p → headers.getLast? = some p) :
    Sound shown a env origin laid h (a.importFast env h headers pivotState above) := by
  have opened : h.Quiet ((h.setPhase .fetchingBodiesAndReceipts).setProgress fun _ =>
      (BlockFetch.begin env.session headers h.peers.config.maxReceipts.toNat
        (BlockFetch.begin env.session headers h.peers.config.maxBlockBodies.toNat
          (h.setPhase .fetchingBodiesAndReceipts).board.progress :
            BlockFetch Body × SyncProgress).2 :
          BlockFetch (List Receipt) × SyncProgress).2) := ⟨rfl, rfl, rfl, rfl⟩
  exact (startBoth_sound hne hl hpivot ⟨[], BlockFetch.aligned_start ..⟩
    ⟨[], BlockFetch.aligned_start ..⟩).after opened

theorem importSegment_sound (hne : headers ≠ [])
    (hl : Laid shown a.master a.target origin (laid ++ headers)) :
    Sound shown a env origin laid h (a.importSegment env h headers) := by
  unfold importSegment
  split
  · exact commit_sound ⟨hne, rfl, by simpa using hl, by simp, by simp⟩
  · exact importFull_sound hne hl
  · dsimp only
    -- up to the pivot blocks are stored as they are, above it they are executed
    have hsplit := List.takeWhile_append_dropWhile (l := headers)
      (p := fun x => decide (x.height ≤ a.pivot.getD a.target))
    split
    · rename_i last hlast
      refine importFast_sound (fun hnil => ?_) (by rwa [hsplit]) fun p hp => ?_
      · rw [hnil] at hlast
        cases hlast
      · split at hp
        · cases hp
          exact hlast
        · cases hp
    · rename_i hlast
      rw [List.getLast?_eq_none_iff.mp hlast, List.nil_append] at hsplit
      rw [hsplit]
      exact importFull_sound hne hl

end Import

section Segments

variable {base : Header} {skeleton : List Header} {last : Header} {engine : Engine}

theorem onFill_sound (below : a.target ≤ a.master.info.head.toNat)
    (hl : Laid shown a.master a.target origin laid)
    (ascending : (laid.getLastD origin :: skeleton).Pairwise (·.height < ·.height))
    (hlast : skeleton.getLast? = some last) (bounded : last.height ≤ a.target)
    (crowned : last.height = a.master.info.head.toNat → last.hash = a.master.info.headHash ∧ shown)
    {out : Run HeaderFill × Hub σ × Option (Except SyncError Unit)}
    (run : Run.Sound (fun f => ∃ sent, HeaderFill.Filling engine (laid.getLastD origin) skeleton
      sent ((laid.getLastD origin).height + 1) (last.height + 1) f) h out) :
    Sound shown a env origin laid h (a.onFill env out) := by
  obtain ⟨r, h', result⟩ := out
  match result with
  | none =>
    exact .wait run.quiet
      ⟨engine, skeleton, last, hl, ascending, hlast, bounded, crowned, run.kept⟩
  | some (.error err) => exact .error run.quiet (by simpa using run.known)
  | some (.ok ()) =>
    obtain ⟨sent, filling⟩ := run.kept
    obtain ⟨hne, segment⟩ := filling.laid ascending hlast (run.done rfl) bounded below crowned
    simp only [onFill]
    rw [if_neg (by simpa using hne)]
    exact (importSegment_sound hne (hl.append segment)).after run.quiet

theorem fillSkeleton_sound (below : a.target ≤ a.master.info.head.toNat)
    (hl : Laid shown a.master a.target origin laid) {stop : Nat} (bounded : stop ≤ a.target)
    (ascending : (laid.getLastD origin :: skeleton).Pairwise (·.height < ·.height))
    (hlast : skeleton.getLast?.map Header.height = some stop)
    (told : ∀ g ∈ skeleton, a.master.Advertised g → shown) :
    Sound shown a env origin laid h (a.fillSkeleton env h (laid.getLastD origin) stop skeleton) := by
  obtain ⟨last, hskeleton, rfl⟩ := Option.map_eq_some_iff.mp hlast
  unfold fillSkeleton
  split
  · exact .error (.refl h) (by simp)
  · rename_i hhead
    -- the check compares only at the advertised head, which is where it is needed
    have crowned : last.height = a.master.info.head.toNat →
        last.hash = a.master.info.headHash ∧ shown := by
      intro heq
      have hsame := Decidable.not_not.mp fun hne => hhead ⟨heq, hne⟩
      rw [hskeleton] at hsame
      have hhash : last.hash = a.master.info.headHash := Option.some.inj hsame
      exact ⟨hhash, told last (List.mem_of_getLast? hskeleton) ⟨heq, hhash⟩⟩
    have hstop : (skeleton.getLastD (laid.getLastD origin)).height = last.height := by
      rw [List.getLastD_eq_getLast?, hskeleton, Option.getD_some]
    have nonempty : HeaderFill.gaps (laid.getLastD origin).height skeleton = [] →
        (laid.getLastD origin).height + 1 = 0 := by
      cases skeleton with
      | nil => simp at hskeleton
      | cons => simp [HeaderFill.gaps]
    have started : HeaderFill.Filling env.engine (laid.getLastD origin) skeleton []
        ((laid.getLastD origin).height + 1)
        ((skeleton.getLastD (laid.getLastD origin)).height + 1)
        (.start env.session (laid.getLastD origin) skeleton a.master.id env.engine
          h.peers.config.skeletonMismatchLimit.toNat) :=
      HeaderFill.filling_start ascending _ _ _ (HeaderFill.tiles_gaps ascending) nonempty
    rw [hstop] at started
    exact onFill_sound below hl ascending hskeleton bounded crowned (Run.start_sound
      (HeaderFill.lasting_filling σ env.engine _ _ ascending) _ h env.cancelled ⟨[], started⟩)

theorem onSkeleton_sound (below : a.target ≤ a.master.info.head.toNat)
    (hl : Laid shown a.master a.target origin laid) {stop size : Nat} (bounded : stop ≤ a.target)
    (hlt : (laid.getLastD origin).height < stop) (hsize : 0 < size)
    {out : Hub σ × Except SyncError (SkeletonFetch ⊕ List Header)}
    (asked : SkeletonFetch.Sound (fun g => a.master.Advertised g → shown)
      (laid.getLastD origin).height stop size h out) :
    Sound shown a env origin laid h (a.onSkeleton env (laid.getLastD origin) stop out) := by
  obtain ⟨h', result⟩ := out
  match result with
  | .error err => exact .error asked.quiet (by simpa using asked.known)
  | .ok (.inl fetch) =>
    obtain ⟨hstart, hstop, rfl, told⟩ := asked.asking fetch rfl
    exact .wait asked.quiet ⟨hl, rfl, hlt, bounded, hstart, hstop, hsize, told⟩
  | .ok (.inr skeleton) =>
    obtain ⟨heights, told⟩ := asked.complete skeleton rfl
    obtain ⟨ascending, hlast⟩ := skeletonPositions_spec hsize hlt
    rw [← heights] at ascending hlast
    rw [← List.map_cons, List.pairwise_map] at ascending
    rw [List.getLast?_map] at hlast
    exact (fillSkeleton_sound below hl bounded ascending hlast told).after asked.quiet

/-- A segment without headers ends the attempt. -/
theorem fillNothing_sound (hl : Laid shown a.master a.target origin laid)
    (stops : Stops h.peers.config a.target (laid.getLastD origin)) (stop : Nat) :
    Sound shown a env origin laid h (a.fillSkeleton env h (laid.getLastD origin) stop []) := by
  unfold fillSkeleton
  split
  · exact .error (.refl h) (by simp)
  · generalize htask : HeaderFill.start .. = task
    have nothing : task.released = [] := htask ▸ rfl
    have done : Workload.isDone task := htask ▸ HeaderFill.isDone_start_nil ..
    have run := Run.start_sound (HeaderFill.lasting_filling σ env.engine 0 0
      (List.pairwise_singleton _ origin)).forget task h env.cancelled trivial
    obtain ⟨same, ended⟩ := Run.start_of_isDone done h env.cancelled
    generalize Run.start task h env.cancelled = out at run same ended
    obtain ⟨r, h', result⟩ := out
    match result with
    | none => cases ended
    | some (.error err) => exact .error run.quiet (by simpa using run.known)
    | some (.ok ()) =>
      have empty : r.task.released.isEmpty := by rw [same, nothing, List.isEmpty_nil]
      simp only [onFill, if_pos empty]
      exact (checkTotalDifficulty_sound hl (by rwa [run.quiet.config])).after run.quiet

theorem nextSegment_sound (valid : h.peers.config.validate = .ok ())
    (below : a.target ≤ a.master.info.head.toNat) (hl : Laid shown a.master a.target origin laid) :
    Sound shown a env origin laid h (a.nextSegment env h (laid.getLastD origin)) := by
  unfold nextSegment
  dsimp only
  split
  · rename_i short
    generalize hstop : min a.target
      ((laid.getLastD origin).number + h.peers.config.segmentLength).toNat = stop
    have phase : h.Quiet (h.setPhase .fetchingHeaders) := .setPhase ..
    rcases Nat.lt_or_ge (laid.getLastD origin).height stop with hlt | low
    · have nothing : ∀ g ∈ ([] : List Header), a.master.Advertised g → shown := by simp
      have asked := SkeletonFetch.advance_sound (h.setPhase .fetchingHeaders) env.cancelled a.master
        (laid.getLastD origin).height stop h.peers.config.headerBatchSize.toNat nothing
        (skeletonRequests (laid.getLastD origin).height stop h.peers.config.headerBatchSize.toNat)
      exact (onSkeleton_sound below hl (hstop ▸ Nat.min_le_left ..) hlt
        (Config.segment_pos valid).1 asked).after phase
    · -- the end of the segment wrapped around, so there is nothing to ask for
      have stops :
          Stops (h.setPhase .fetchingHeaders).peers.config a.target (laid.getLastD origin) :=
        .inr (Config.stopsShort_of_le valid short (hstop ▸ low))
      rw [SkeletonFetch.begin_of_le _ _ _ _ low]
      exact (fillNothing_sound hl stops stop).after phase
  · exact checkTotalDifficulty_sound hl (.inl (by omega))

theorem continueAbove_sound (valid : h.peers.config.validate = .ok ())
    (below : a.target ≤ a.master.info.head.toNat) {above : List Header}
    (hl : Laid shown a.master a.target origin (laid ++ above)) :
    Sound shown a env origin laid h (a.continueAbove env h (laid.getLastD origin) above) := by
  unfold continueAbove
  split
  · exact nextSegment_sound valid below hl.initial
  · rename_i hne
    exact importFull_sound (by simpa using hne) hl

end Segments

section State

variable {above : List Header}

theorem continueFull_sound (valid : h.peers.config.validate = .ok ())
    (below : a.target ≤ a.master.info.head.toNat)
    (hl : Laid shown a.master a.target origin (laid ++ above)) {h' : Hub σ} (quiet : h.Quiet h') :
    Sound shown a env origin laid h
      (({ a with mode := .full } : Attempt).continueAbove env h' (laid.getLastD origin) above) := by
  have full : Sound shown { a with mode := .full } env origin laid h'
      (({ a with mode := .full } : Attempt).continueAbove env h' (laid.getLastD origin) above) :=
    continueAbove_sound (a := { a with mode := .full }) (by rw [quiet.config, valid]) below hl
  exact .after (full.of_same rfl rfl) quiet

theorem onState_sound (valid : h.peers.config.validate = .ok ())
    (below : a.target ≤ a.master.info.head.toNat)
    (hl : Laid shown a.master a.target origin (laid ++ above)) (expires : Nat)
    {out : Run StateDownload × Hub σ × Option (Except SyncError Unit)}
    (run : Run.Sound (fun _ => True) h out) :
    Sound shown a env origin laid h (a.onState env (laid.getLastD origin) above expires out) := by
  obtain ⟨r, h', result⟩ := out
  have valid' : h'.peers.config.validate = .ok () := by rw [run.quiet.config, valid]
  match result with
  | none =>
    simp only [onState]
    split
    · have full :
          Sound shown a env origin laid h' (a.fallBack env h' (laid.getLastD origin) above r) := by
        unfold fallBack
        exact continueFull_sound valid' below hl ⟨rfl, rfl, rfl, rfl⟩
      exact full.after run.quiet
    · exact .wait run.quiet ⟨rfl, hl⟩
  | some (.error err) => exact .error run.quiet (by simpa using run.known)
  | some (.ok ()) => exact (continueAbove_sound valid' below hl).after run.quiet

variable [NodeStore σ]

theorem fetchState_sound (valid : h.peers.config.validate = .ok ())
    (below : a.target ≤ a.master.info.head.toNat)
    (hl : Laid shown a.master a.target origin (laid ++ above)) :
    Sound shown a env origin laid h (a.fetchState env h (laid.getLastD origin) above) := by
  unfold fetchState
  split
  · exact continueFull_sound valid below hl (.refl h)
  · split
    · exact .error (.refl h) (by simp)
    · dsimp only
      have phase : h.Quiet (h.setPhase .fetchingState) := .setPhase ..
      split
      · exact .error phase (by simp)
      · rename_i task htask
        have reported : h.Quiet ((h.setPhase .fetchingState).setProgress task.report) :=
          ⟨rfl, rfl, rfl, rfl⟩
        exact (onState_sound (by rw [reported.config, valid]) below hl _
          (Run.start_sound (StateDownload.lasting_true σ) task _ env.cancelled trivial)).after
          reported

/-- The hub once everyone was told of a new head. -/
def published (h : Hub σ) (last : Header) : Hub σ :=
  let h := h.setProgress ({ · with current := last.height })
  { h with
    peers := h.peers.setForkHead last.number
    heads := (h.heads.publish ⟨last.number, last.hash⟩).2 }

theorem accepted_sound (valid : h.peers.config.validate = .ok ())
    (below : a.target ≤ a.master.info.head.toNat) {i : Insertion}
    (fits : i.Fits shown a.master a.target origin laid) {last : Header}
    (hlast : i.headers.getLast? = some last) :
    Sound shown a env origin (laid ++ i.headers) (published h last) (a.accepted env h i last) := by
  have valid' : (published h last).peers.config.validate = .ok () := valid
  have hl := fits.laid
  rw [← List.append_assoc] at hl
  -- the last of the batch is the new tip, and the pivot where there is one
  have htip : (laid ++ i.headers).getLastD origin = last := by
    rw [List.getLastD_eq_getLast?, List.getLast?_append, hlast]
    rfl
  unfold accepted
  dsimp only
  split
  · rename_i pivot hpivot
    have hsame : pivot = last := Option.some.inj ((fits.pivot pivot hpivot).symm.trans hlast)
    have fetched : Sound shown a env origin (laid ++ i.headers) (published h last) (a.fetchState env
        (published h last) ((laid ++ i.headers).getLastD origin) i.above) :=
      fetchState_sound valid' below hl
    rw [htip] at fetched
    rw [hsame]
    exact fetched
  · have continued : Sound shown a env origin (laid ++ i.headers) (published h last)
        (a.continueAbove env (published h last) ((laid ++ i.headers).getLastD origin) i.above) :=
      continueAbove_sound valid' below hl
    rwa [htip] at continued

omit [NodeStore σ] in
theorem refused_eq (h : Hub σ) (i : Insertion) (err : InsertError) :
    ∃ h' err', refused h i err = (h', .error err') ∧ h.Quiet h' ∧
      ∀ hash, err' ≠ .unknownBlock hash := by
  unfold refused
  split
  · exact ⟨_, _, rfl, .refl h, by simp⟩
  · dsimp only
    split
    · exact ⟨_, _, rfl, .setPeers h (PeerSet.config_blacklist ..)
        (PeerSet.ids_blacklist ..), by simp⟩
    · exact ⟨_, _, rfl, .refl h, by simp⟩

end State

section Legs

variable {τ υ : Type} [Workload τ] [Workload υ] [Receiver σ τ] [Receiver σ υ] {P : τ → Prop}
  {Q : υ → Prop}

theorem stepLeg_sound (lasting : Lasting σ P) (cancelled : Bool) (signal : Signal) {leg : Leg τ}
    (holds : leg.Holds P) : LegSound P h (stepLegs.stepLeg cancelled h signal leg) := by
  cases leg with
  | running run => exact legOf_sound (Run.step_sound lasting run h cancelled signal holds)
  | complete task =>
    refine ⟨.refl h, fun leg hleg => ?_, by simp [stepLegs.stepLeg]⟩
    cases hleg
    exact holds

theorem stepLegs_sound (lasting : Lasting σ P) (lasting' : Lasting σ Q) (cancelled : Bool)
    (forFirst forSecond : Signal) {first : Leg τ} {second : Leg υ} (hp : first.Holds P)
    (hq : second.Holds Q) :
    h.Quiet (stepLegs h cancelled forFirst forSecond first second).1 ∧
      (∀ legs, (stepLegs h cancelled forFirst forSecond first second).2 = .ok legs →
        legs.1.Holds P ∧ legs.2.Holds Q) ∧
      ∀ hash, (stepLegs h cancelled forFirst forSecond first second).2 ≠
        .error (.unknownBlock hash) := by
  have one : LegSound P h (stepLegs.stepLeg cancelled h forFirst first) :=
    stepLeg_sound lasting cancelled forFirst hp
  unfold stepLegs
  generalize stepLegs.stepLeg cancelled h forFirst first = out at one ⊢
  obtain ⟨h', result⟩ := out
  cases result with
  | error err => exact ⟨one.quiet.trans (leave_quiet ..), by simp, by simpa using one.known⟩
  | ok first =>
    have two : LegSound Q h' (stepLegs.stepLeg cancelled h' forSecond second) :=
      stepLeg_sound lasting' cancelled forSecond hq
    dsimp only
    generalize stepLegs.stepLeg cancelled h' forSecond second = out at two ⊢
    obtain ⟨h'', result⟩ := out
    have quiet : h.Quiet h'' := one.quiet.trans two.quiet
    cases result with
    | error err => exact ⟨quiet.trans (leave_quiet ..), by simp, by simpa using two.known⟩
    | ok second =>
      refine ⟨quiet, fun legs hlegs => ?_, by simp⟩
      cases hlegs
      exact ⟨one.holds _ rfl, two.holds _ rfl⟩

theorem stepBoth_sound {headers above : List Header} {pivotState : Option Header}
    (hne : headers ≠ []) (hl : Laid shown a.master a.target origin (laid ++ (headers ++ above)))
    (hpivot : ∀ p, pivotState = some p → headers.getLast? = some p)
    {bodies : Leg (BlockFetch Body)} {receipts : Leg (BlockFetch (List Receipt))}
    (hb : bodies.Holds fun f => ∃ kept, BlockFetch.Aligned headers kept f)
    (hr : receipts.Holds fun f => ∃ kept, BlockFetch.Aligned headers kept f) (signal : Signal) :
    Sound shown a env origin laid h
      (a.stepBoth env h headers pivotState above bodies receipts signal) := by
  have lastingBodies := BlockFetch.lasting_aligned (δ := Body) σ headers
  have lastingReceipts := BlockFetch.lasting_aligned (δ := List Receipt) σ headers
  unfold stepBoth
  generalize shareSignal h bodies receipts signal = signals
  obtain ⟨forBodies, forReceipts⟩ := signals
  have one := stepLegs_sound (h := h) lastingBodies lastingReceipts env.cancelled forBodies
    forReceipts hb hr
  dsimp only
  generalize stepLegs h env.cancelled forBodies forReceipts bodies receipts = out at one ⊢
  obtain ⟨h', result⟩ := out
  cases result with
  | error err => exact .error one.1 (by simpa using one.2.2)
  | ok legs =>
    obtain ⟨hb, hr⟩ := one.2.1 _ rfl
    have two := stepLegs_sound (h := h') lastingBodies lastingReceipts env.cancelled .woken .woken
      hb hr
    dsimp only
    generalize stepLegs h' env.cancelled .woken .woken legs.1 legs.2 = out at two ⊢
    obtain ⟨h'', result⟩ := out
    have quiet : h.Quiet h'' := one.1.trans two.1
    cases result with
    | error err => exact .error quiet (by simpa using two.2.2)
    | ok legs =>
      obtain ⟨hb, hr⟩ := two.2.1 _ rfl
      exact (onBoth_sound hne hl hpivot hb hr).after quiet

end Legs

variable [NodeStore σ]

/-- The headers of the skeleton that answer the master's call. -/
def answers : Stage → Signal → List Header
  | .skeleton _ _ fetch, signal => fetch.query.answer signal
  | _, _ => []

/-- Behind its origin an attempt only ever waits for what fits. -/
theorem step_sound (valid : h.peers.config.validate = .ok ())
    (below : a.target ≤ a.master.info.head.toNat) {stage : Stage} {signal : Signal}
    (waiting : Waiting shown a.master a.target origin laid stage)
    (told : ∀ g ∈ answers stage signal, a.master.Advertised g → shown) :
    Sound shown a env origin laid h (a.step env h stage signal) := by
  cases stage with
  | ancestor search => exact waiting.elim
  | skeleton base stop fetch =>
    obtain ⟨hl, rfl, hlt, bounded, hstart, hstop, hsize, before⟩ := waiting
    have asked := fetch.step_sound h env.cancelled (P := fun g => a.master.Advertised g → shown)
      fun g hg => (List.mem_append.mp hg).elim (before g) (told g)
    rw [hstart, hstop] at asked
    exact onSkeleton_sound below hl bounded hlt hsize asked
  | fill run =>
    obtain ⟨engine, skeleton, last, hl, ascending, hlast, bounded, crowned, kept⟩ := waiting
    exact onFill_sound below hl ascending hlast bounded crowned (Run.step_sound
      (HeaderFill.lasting_filling σ engine _ _ ascending) run h env.cancelled signal kept)
  | bodies headers run =>
    obtain ⟨hne, hl, kept⟩ := waiting
    exact onBodies_sound hne hl (Run.step_sound (BlockFetch.lasting_aligned σ headers) run h
      env.cancelled signal kept)
  | bodiesAndReceipts headers pivotState above bodies receipts =>
    obtain ⟨hne, hl, hpivot, hb, hr⟩ := waiting
    exact stepBoth_sound hne hl hpivot hb hr signal
  | state pivot above run expires =>
    obtain ⟨rfl, hl⟩ := waiting
    have stepped (signal : Signal) : Sound shown a env origin laid h
        (a.onState env (laid.getLastD origin) above expires (run.step h env.cancelled signal)) :=
      onState_sound valid below hl expires
        (Run.step_sound (StateDownload.lasting_true σ) run h env.cancelled signal trivial)
    cases signal with
    | deadline =>
      simp only [step]
      split
      · exact stepped .deadline
      · exact onState_sound valid below hl expires ⟨trivial, .refl h, by simp, by simp⟩
    | woken => exact stepped .woken
    | ended ticket ending => exact stepped (.ended ticket ending)
  | inserting i => exact .wait (.refl h) waiting

end Attempt
end ChainSync
