import ChainSync.Proofs.Headers.Blame
import ChainSync.Proofs.Session.Stages
set_option autoImplicit false

/-!
What one step of an attempt can come to: a batch, which only a session that is still wanted hands
over; a wait, for the attempt's own master where one peer alone is asked; or an error, of one of a
few kinds.
-/

namespace ChainSync

open Fetch

/-- Where one peer alone is asked it is the master, and a fill blames nobody else. -/
def Stage.AskedOf (master : SyncPeer) : Stage → Prop
  | .ancestor search => search.AskedOf master
  | .skeleton _ _ fetch => fetch.AskedOf master
  | .fill run => run.task.Anchored master.id
  | .bodies .. | .bodiesAndReceipts .. | .state .. | .inserting _ => True

theorem Fetch.BlockFetch.deliver_unfailing (σ : Type) {δ : Type} [BlockData δ] (f : BlockFetch δ)
    (board : Board σ) (id : RequestId) (peer : PeerId) (payload : Payload) (err : SyncError) :
    (Receiver.deliver f board id peer payload).2.2 ≠ .error err := by
  rintro ⟨⟩

namespace Attempt

variable {σ : Type} {a : Attempt} {env : Surroundings} {h h' : Hub σ} {err : SyncError}
  {late : Prop}

/-- Why an attempt fails, with what the hub has come to. -/
inductive Failure (a : Attempt) (env : Surroundings) (late : Prop) (h : Hub σ) :
    SyncError → Prop where
  | master {err : SyncError} (blamed : err.Blames a.master.id) : Failure a env late h err
  /-- The master has no slot to ask it by, or is gone. -/
  | unasked {e : PeerSetError} (refused : h.peers.beginRequest a.master.id .headers = .error e) :
      Failure a env late h (.peerSet e)
  | cancelled (seen : env.cancelled = true ∨ env.revoked = true) : Failure a env late h .cancelled
  | noUsablePeers (waited : late) : Failure a env late h .noUsablePeers
  | chain {e : ChainError} (failed : env.view.Fails e) : Failure a env late h (.chain e)
  | stateStore (e : StoreError) : Failure a env late h (.stateStore e)
  /-- The local chain does not know the head that the master advertised. -/
  | unknown (head : a.target = a.master.info.head.toNat)
      (missing : env.view.totalDifficulty a.master.info.headHash = .ok none) :
      Failure a env late h (.unknownBlock a.master.info.headHash)

theorem Failure.ofRun {wrong : SyncError → Prop}
    (failure : Run.Failure wrong env.cancelled late err)
    (answer : ∀ err, wrong err → Failure a env late h err) : Failure a env late h err := by
  cases failure with
  | cancelled seen => exact .cancelled (.inl seen)
  | noUsablePeers waited => exact .noUsablePeers waited
  | answer h => exact answer err h

/-- What a step of an attempt comes to. -/
structure Outcome (a : Attempt) (env : Surroundings) (late : Prop) (h : Hub σ) (out : Step σ) :
    Prop where
  /-- Nobody registers by it, and nobody goes. -/
  ids : out.1.peers.ids = h.peers.ids
  heeds : ∀ a' i, out.2 = .ok (some (a', .inserting i)) → env.revoked = false
  goes : ∀ a' stage, out.2 = .ok (some (a', stage)) →
    a'.master = a.master ∧ a'.target = a.target ∧ stage.AskedOf a.master
  fails : ∀ err, out.2 = .error err → Failure a env late out.1 err

namespace Outcome

theorem error (ids : h'.peers.ids = h.peers.ids) (failure : Failure a env late h' err) :
    Outcome a env late h (h', .error err) := by
  refine ⟨ids, by simp, by simp, ?_⟩
  rintro _ ⟨⟩
  exact failure

theorem done (h : Hub σ) : Outcome a env late h (h, .ok none) := ⟨rfl, by simp, by simp, by simp⟩

theorem wait (ids : h'.peers.ids = h.peers.ids) {stage : Stage} (asked : stage.AskedOf a.master)
    (other : ∀ i, stage ≠ .inserting i) : Outcome a env late h (h', .ok (some (a, stage))) := by
  refine ⟨ids, ?_, ?_, by simp⟩
  · rintro a' i ⟨⟩
    exact absurd rfl (other i)
  · rintro a' stage' ⟨⟩
    exact ⟨rfl, rfl, asked⟩

theorem after {out : Step σ} (outcome : Outcome a env late h' out)
    (ids : h'.peers.ids = h.peers.ids) : Outcome a env late h out :=
  ⟨outcome.ids.trans ids, outcome.heeds, outcome.goes, outcome.fails⟩

/-- Neither the mode nor the pivot of an attempt matters. -/
theorem of_same {a' : Attempt} {out : Step σ} (outcome : Outcome a' env late h out)
    (hmaster : a'.master = a.master) (htarget : a'.target = a.target) :
    Outcome a env late h out := by
  obtain ⟨ids, heeds, goes, fails⟩ := outcome
  rw [hmaster, htarget] at goes
  refine ⟨ids, heeds, goes, fun err failed => ?_⟩
  cases fails err failed with
  | master blamed => exact .master (hmaster ▸ blamed)
  | unasked refused => exact .unasked (hmaster ▸ refused)
  | cancelled seen => exact .cancelled seen
  | noUsablePeers waited => exact .noUsablePeers waited
  | chain unread => exact .chain unread
  | stateStore e => exact .stateStore e
  | unknown head missing =>
    rw [hmaster] at missing ⊢
    exact .unknown (by rw [← htarget, head, hmaster]) missing

end Outcome

theorem commit_outcome (i : Insertion) : Outcome a env late h (a.commit env h i) := by
  unfold commit
  split
  · rename_i revoked
    exact .error rfl (.cancelled (.inr revoked))
  · rename_i wanted
    refine ⟨rfl, fun _ _ _ => Bool.eq_false_iff.mpr wanted, ?_, by simp⟩
    rintro a' stage ⟨⟩
    exact ⟨rfl, rfl, trivial⟩

theorem checkTotalDifficulty_outcome : Outcome a env late h (a.checkTotalDifficulty env h) := by
  unfold checkTotalDifficulty
  split
  · exact .done h
  · rename_i head
    split
    · rename_i failed
      exact .error rfl (.chain (.weight failed))
    · rename_i missing
      exact .error rfl (.unknown (Decidable.not_not.mp head) missing)
    · split
      · exact .error rfl (.master ⟨rfl, rfl⟩)
      · exact .done h

section Import

variable {headers above : List Header} {pivotState : Option Header}

theorem onBodies_outcome {out : Run (BlockFetch Body) × Hub σ × Option (Except SyncError Unit)}
    (ids : out.2.1.peers.ids = h.peers.ids)
    (fails : ∀ err, out.2.2 = some (.error err) →
      Run.Failure (fun _ => False) env.cancelled late err) :
    Outcome a env late h (a.onBodies env headers out) := by
  obtain ⟨r, h', result⟩ := out
  match result with
  | none => exact .wait ids trivial (by simp)
  | some (.error err) => exact .error ids (.ofRun (fails err rfl) (by simp))
  | some (.ok ()) => exact (commit_outcome _).after ids

theorem startFetch_ids {δ : Type} [BlockData δ] [LawfulBlockData δ] (task : BlockFetch δ)
    (cancelled : Bool) : (Run.start task h cancelled).2.1.peers.ids = h.peers.ids :=
  (Run.start_sound (BlockFetch.lasting_aligned σ []).forget task h cancelled trivial).quiet.ids

theorem importFull_outcome : Outcome a env late h (a.importFull env h headers) :=
  onBodies_outcome (startFetch_ids ..) fun _ failed => Run.start_error failed

theorem onBoth_outcome (bodies : Leg (BlockFetch Body))
    (receipts : Leg (BlockFetch (List Receipt))) :
    Outcome a env late h (a.onBoth env h headers pivotState above bodies receipts) := by
  unfold onBoth
  split
  · exact commit_outcome _
  · exact .wait rfl trivial (by simp)

theorem legOf_fst {τ : Type} (out : Run τ × Hub σ × Option (Except SyncError Unit)) :
    (legOf out).1 = out.2.1 := by
  obtain ⟨r, h, result⟩ := out
  match result with
  | none => rfl
  | some (.error e) => rfl
  | some (.ok ()) => rfl

theorem legOf_error {τ : Type} {out : Run τ × Hub σ × Option (Except SyncError Unit)}
    (failed : (legOf out).2 = .error err) : out.2.2 = some (.error err) := by
  obtain ⟨r, h, result⟩ := out
  match result with
  | none => cases failed
  | some (.error e) =>
    cases failed
    rfl
  | some (.ok ()) => cases failed

section StartLeg

variable {δ : Type} [BlockData δ] [LawfulBlockData δ] {task : BlockFetch δ} {cancelled : Bool}

theorem startLeg_ids {result : Except SyncError (Leg (BlockFetch δ))}
    (started : legOf (Run.start task h cancelled) = (h', result)) :
    h'.peers.ids = h.peers.ids := by
  have same : (legOf (Run.start task h cancelled)).1 = h' := congrArg Prod.fst started
  rw [← same, legOf_fst]
  exact startFetch_ids ..

omit [LawfulBlockData δ] in
theorem startLeg_error (started : legOf (Run.start task h cancelled) = (h', .error err)) :
    Run.Failure (fun _ => False) cancelled late err :=
  Run.start_error (legOf_error (congrArg Prod.snd started))

end StartLeg

theorem importFast_outcome :
    Outcome a env late h (a.importFast env h headers pivotState above) := by
  unfold importFast
  dsimp only
  split
  · rename_i heq
    have first := startLeg_ids heq
    exact .error first (.ofRun (startLeg_error heq) (by simp))
  · rename_i heq
    have first := startLeg_ids heq
    split
    · rename_i heq
      have second := (startLeg_ids heq).trans first
      exact .error ((leave_quiet ..).ids.trans second) (.ofRun (startLeg_error heq) (by simp))
    · rename_i heq
      exact (onBoth_outcome ..).after ((startLeg_ids heq).trans first)

theorem importSegment_outcome : Outcome a env late h (a.importSegment env h headers) := by
  unfold importSegment
  split
  · exact commit_outcome _
  · exact importFull_outcome
  · dsimp only
    split
    · exact importFast_outcome
    · exact importFull_outcome

end Import

section Segments

theorem onFill_outcome {out : Run HeaderFill × Hub σ × Option (Except SyncError Unit)}
    (run : Run.Sound (fun f => f.Anchored a.master.id) h out)
    (fails : ∀ err, out.2.2 = some (.error err) →
      Run.Failure (SyncError.Blames a.master.id) env.cancelled late err) :
    Outcome a env late h (a.onFill env out) := by
  have ids := run.quiet.ids
  obtain ⟨r, h', result⟩ := out
  match result with
  | none => exact .wait ids run.kept (by simp)
  | some (.error err) => exact .error ids (.ofRun (fails err rfl) fun _ => .master)
  | some (.ok ()) =>
    simp only [onFill]
    split
    · exact checkTotalDifficulty_outcome.after ids
    · exact importSegment_outcome.after ids

theorem fillSkeleton_outcome (origin : Header) (stop : Nat) (skeleton : List Header) :
    Outcome a env late h (a.fillSkeleton env h origin stop skeleton) := by
  unfold fillSkeleton
  split
  · exact .error rfl (.master ⟨rfl, rfl⟩)
  · exact onFill_outcome (Run.start_sound (HeaderFill.lasting_anchored σ a.master.id) _ h
      env.cancelled (HeaderFill.anchored_start ..)) fun _ failed => Run.start_error failed

theorem onSkeleton_outcome (origin : Header) (stop : Nat)
    {out : Hub σ × Except SyncError (SkeletonFetch ⊕ List Header)}
    (ids : out.1.peers.ids = h.peers.ids) (asked : ∀ f, out.2 = .ok (.inl f) → f.AskedOf a.master)
    (fails : ∀ err, out.2 = .error err →
      SkeletonFetch.Failure a.master.id env.cancelled out.1 err) :
    Outcome a env late h (a.onSkeleton env origin stop out) := by
  obtain ⟨h', result⟩ := out
  match result with
  | .error err =>
    refine .error ids ?_
    cases fails err rfl with
    | cancelled seen => exact .cancelled (.inl seen)
    | master blamed => exact .master blamed
    | unasked refused => exact .unasked refused
  | .ok (.inl fetch) => exact .wait ids (asked fetch rfl) (by simp)
  | .ok (.inr skeleton) => exact (fillSkeleton_outcome ..).after ids

theorem nextSegment_outcome (last : Header) : Outcome a env late h (a.nextSegment env h last) := by
  unfold nextSegment
  split
  · exact onSkeleton_outcome _ _ (SkeletonFetch.advance_quiet ..).ids
      (fun _ => SkeletonFetch.advance_asked) fun _ => SkeletonFetch.advance_error
  · exact checkTotalDifficulty_outcome

theorem continueAbove_outcome (last : Header) (above : List Header) :
    Outcome a env late h (a.continueAbove env h last above) := by
  unfold continueAbove
  split
  · exact nextSegment_outcome last
  · exact importFull_outcome

end Segments

section State

theorem onState_outcome (pivot : Header) (above : List Header) (expires : Nat)
    {out : Run StateDownload × Hub σ × Option (Except SyncError Unit)}
    (ids : out.2.1.peers.ids = h.peers.ids)
    (fails : ∀ err, out.2.2 = some (.error err) →
      Run.Failure (fun err => ∃ e, err = .stateStore e) env.cancelled late err) :
    Outcome a env late h (a.onState env pivot above expires out) := by
  obtain ⟨r, h', result⟩ := out
  match result with
  | none =>
    simp only [onState]
    split
    · have full :
          Outcome { a with mode := .full } env late h' (a.fallBack env h' pivot above r) := by
        unfold fallBack
        exact (continueAbove_outcome ..).after rfl
      have same : Outcome a env late h' (a.fallBack env h' pivot above r) := full.of_same rfl rfl
      exact same.after ids
    · exact .wait ids trivial (by simp)
  | some (.error err) =>
    refine .error ids (.ofRun (fails err rfl) ?_)
    rintro _ ⟨e, rfl⟩
    exact .stateStore e
  | some (.ok ()) => exact (continueAbove_outcome ..).after ids

variable [NodeStore σ]

theorem fetchState_outcome (pivot : Header) (above : List Header) :
    Outcome a env late h (a.fetchState env h pivot above) := by
  unfold fetchState
  split
  · exact (continueAbove_outcome ..).of_same rfl rfl
  · split
    · rename_i seen
      exact .error rfl (.cancelled (.inl seen))
    · dsimp only
      split
      · exact .error rfl (.stateStore _)
      · exact onState_outcome _ _ _
          (Run.start_sound (StateDownload.lasting_true σ) _ _ _ trivial).quiet.ids
          fun _ failed => Run.start_error failed

/-- A batch that was taken. -/
theorem landed_outcome (i : Insertion) : Outcome a env late h (a.landed env h i (.ok ())) := by
  simp only [landed]
  split
  · simp only [accepted]
    split
    · exact (fetchState_outcome ..).after rfl
    · exact (continueAbove_outcome ..).after rfl
  · exact checkTotalDifficulty_outcome

end State

theorem onAncestor_outcome {out : Hub σ × Except SyncError (AncestorSearch ⊕ Ancestor)}
    (ids : out.1.peers.ids = h.peers.ids) (asked : ∀ s, out.2 = .ok (.inl s) → s.AskedOf a.master)
    (fails : ∀ err, out.2 = .error err → (err = .cancelled ∧ env.cancelled = true) ∨
      err.Blames a.master.id ∨ ∃ e, err = .chain e ∧ env.view.Fails e) :
    Outcome a env late h (a.onAncestor env out) := by
  obtain ⟨h', result⟩ := out
  match result with
  | .error err =>
    refine .error ids ?_
    rcases fails err rfl with ⟨rfl, seen⟩ | blamed | ⟨e, rfl, failed⟩
    · exact .cancelled (.inl seen)
    · exact .master blamed
    · exact .chain failed
  | .ok (.inl search) => exact .wait ids (asked search rfl) (by simp)
  | .ok (.inr ancestor) =>
    refine ((nextSegment_outcome ancestor.header).of_same ?_ ?_).after ids
    all_goals
      split
      · split <;> rfl
      · rfl

section Legs

variable {τ υ : Type} [Workload τ] [Workload υ] [Receiver σ τ] [Receiver σ υ] {cancelled : Bool}

theorem stepLeg_error {signal : Signal} {leg : Leg τ} (waited : signal = .deadline → late)
    (sound : ∀ (t : τ) (board : Board σ) (id : RequestId) (peer : PeerId) (payload : Payload)
      (err : SyncError), (Receiver.deliver t board id peer payload).2.2 ≠ .error err)
    (failed : (stepLegs.stepLeg cancelled h signal leg).2 = .error err) :
    Run.Failure (fun _ => False) cancelled late err := by
  cases leg with
  | running run => exact Run.step_error waited (sound run.task) (legOf_error failed)
  | complete task => cases failed

theorem stepLegs_error {forFirst forSecond : Signal} {first : Leg τ} {second : Leg υ}
    (waited : forFirst = .deadline ∨ forSecond = .deadline → late)
    (sound : ∀ (t : τ) (board : Board σ) (id : RequestId) (peer : PeerId) (payload : Payload)
      (err : SyncError), (Receiver.deliver t board id peer payload).2.2 ≠ .error err)
    (sound' : ∀ (t : υ) (board : Board σ) (id : RequestId) (peer : PeerId) (payload : Payload)
      (err : SyncError), (Receiver.deliver t board id peer payload).2.2 ≠ .error err)
    (failed : (stepLegs h cancelled forFirst forSecond first second).2 = .error err) :
    Run.Failure (fun _ => False) cancelled late err := by
  unfold stepLegs at failed
  split at failed
  · rename_i heq
    cases failed
    exact stepLeg_error (waited ∘ .inl) sound (by rw [heq])
  · split at failed
    · rename_i heq
      cases failed
      exact stepLeg_error (waited ∘ .inr) sound' (by rw [heq])
    · cases failed

theorem stepLeg_ids (lasting : Lasting σ fun _ : τ => True) (h : Hub σ) (cancelled : Bool)
    (signal : Signal) (leg : Leg τ) :
    (stepLegs.stepLeg cancelled h signal leg).1.peers.ids = h.peers.ids := by
  cases leg with
  | running run =>
    simp only [stepLegs.stepLeg, legOf_fst]
    exact (Run.step_sound lasting run h cancelled signal trivial).quiet.ids
  | complete task => rfl

theorem stepLegs_ids (lasting : Lasting σ fun _ : τ => True)
    (lasting' : Lasting σ fun _ : υ => True) (forFirst forSecond : Signal) (first : Leg τ)
    (second : Leg υ) :
    (stepLegs h cancelled forFirst forSecond first second).1.peers.ids = h.peers.ids := by
  have one := stepLeg_ids lasting h cancelled forFirst first
  unfold stepLegs
  split
  · rename_i heq
    rw [heq] at one
    exact (leave_quiet ..).ids.trans one
  · rename_i h' first heq
    rw [heq] at one
    have two := stepLeg_ids lasting' h' cancelled forSecond second
    split
    · rename_i heq
      rw [heq] at two
      exact (leave_quiet ..).ids.trans (two.trans one)
    · rename_i heq
      rw [heq] at two
      exact two.trans one

omit [Workload τ] [Workload υ] [Receiver σ τ] [Receiver σ υ] in
theorem shareSignal_deadline {first : Leg τ} {second : Leg υ} {signal : Signal}
    (passed : (shareSignal h first second signal).1 = .deadline ∨
      (shareSignal h first second signal).2 = .deadline) : signal = .deadline := by
  cases signal with
  | deadline => rfl
  | woken => simp [shareSignal] at passed
  | ended ticket ending =>
    simp only [shareSignal] at passed
    split at passed <;> simp at passed

theorem stepFetches_ids {forBodies forReceipts : Signal} {bodies : Leg (BlockFetch Body)}
    {receipts : Leg (BlockFetch (List Receipt))}
    {result : Except SyncError (Leg (BlockFetch Body) × Leg (BlockFetch (List Receipt)))}
    (stepped : stepLegs h cancelled forBodies forReceipts bodies receipts = (h', result)) :
    h'.peers.ids = h.peers.ids := by
  have same : (stepLegs h cancelled forBodies forReceipts bodies receipts).1 = h' :=
    congrArg Prod.fst stepped
  rw [← same]
  exact stepLegs_ids (BlockFetch.lasting_aligned σ []).forget
    (BlockFetch.lasting_aligned σ []).forget ..

theorem stepFetches_error {forBodies forReceipts : Signal} {bodies : Leg (BlockFetch Body)}
    {receipts : Leg (BlockFetch (List Receipt))}
    (waited : forBodies = .deadline ∨ forReceipts = .deadline → late)
    (stepped : stepLegs h cancelled forBodies forReceipts bodies receipts = (h', .error err)) :
    Run.Failure (fun _ => False) cancelled late err :=
  stepLegs_error waited (BlockFetch.deliver_unfailing σ) (BlockFetch.deliver_unfailing σ)
    (congrArg Prod.snd stepped)

theorem stepBoth_outcome {headers above : List Header} {pivotState : Option Header}
    (bodies : Leg (BlockFetch Body)) (receipts : Leg (BlockFetch (List Receipt)))
    (signal : Signal) :
    Outcome a env (signal = .deadline) h
      (a.stepBoth env h headers pivotState above bodies receipts signal) := by
  have shared : (shareSignal h bodies receipts signal).1 = .deadline ∨
      (shareSignal h bodies receipts signal).2 = .deadline → signal = .deadline :=
    shareSignal_deadline
  unfold stepBoth
  generalize shareSignal h bodies receipts signal = signals at shared ⊢
  obtain ⟨forBodies, forReceipts⟩ := signals
  dsimp only
  split
  · rename_i heq
    exact .error (stepFetches_ids heq) (.ofRun (stepFetches_error shared heq) (by simp))
  · rename_i h' bodies receipts heq
    have first : h'.peers.ids = h.peers.ids := stepFetches_ids heq
    split
    · rename_i heq
      -- Neither fetch is told that its deadline has passed a second time.
      have failure : Run.Failure (fun _ => False) env.cancelled (signal = .deadline) _ :=
        stepFetches_error (by simp) heq
      exact .error ((stepFetches_ids heq).trans first) (.ofRun failure (by simp))
    · rename_i heq
      exact (onBoth_outcome ..).after ((stepFetches_ids heq).trans first)

end Legs

variable [NodeStore σ]

/-- An attempt that waits for the local chain hands nothing new over until it has the answer. -/
theorem step_outcome {stage : Stage} (asked : stage.AskedOf a.master)
    (other : ∀ i, stage ≠ .inserting i) (signal : Signal) :
    Outcome a env (signal = .deadline) h (a.step env h stage signal) := by
  cases stage with
  | ancestor search =>
    exact onAncestor_outcome (search.step_quiet ..).ids (fun _ => search.step_asked asked)
      fun _ => search.step_error asked
  | skeleton origin stop fetch =>
    exact onSkeleton_outcome _ _ (fetch.step_quiet ..).ids (fun _ => fetch.step_asked asked)
      fun _ => fetch.step_error asked
  | fill run =>
    exact onFill_outcome (Run.step_sound (HeaderFill.lasting_anchored σ a.master.id) run h
      env.cancelled signal asked) fun _ =>
        Run.step_error id fun _ _ _ _ _ failed => HeaderFill.deliver_blames asked failed
  | bodies headers run =>
    exact onBodies_outcome (Run.step_sound (BlockFetch.lasting_aligned σ []).forget run h
      env.cancelled signal trivial).quiet.ids fun _ =>
        Run.step_error id (BlockFetch.deliver_unfailing σ run.task)
  | bodiesAndReceipts headers pivotState above bodies receipts => exact stepBoth_outcome ..
  | state pivot above run expires =>
    have told : Outcome a env (signal = .deadline) h
        (a.onState env pivot above expires (run.step h env.cancelled signal)) :=
      onState_outcome _ _ _
        (Run.step_sound (StateDownload.lasting_true σ) run h env.cancelled signal trivial).quiet.ids
        fun _ => Run.step_error id fun _ _ _ _ _ failed => StateDownload.deliver_error failed
    cases signal with
    | deadline =>
      have same : a.step env h (.state pivot above run expires) .deadline =
          if (run.deadline? h).any (· ≤ h.now) then
            a.onState env pivot above expires (run.step h env.cancelled .deadline)
          else a.onState env pivot above expires (run, h, none) := rfl
      rw [same]
      split
      · exact told
      · exact onState_outcome _ _ _ rfl (by simp)
    | woken => exact told
    | ended ticket ending => exact told
  | inserting i => exact absurd rfl (other i)

end Attempt
end ChainSync
