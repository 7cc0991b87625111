import ChainSync.Proofs.Session.Passage
set_option autoImplicit false

/-!
What comes of the state of a pivot: it is complete before the time is up, or the attempt goes on
without it.
-/

namespace ChainSync

open Fetch

namespace StateDownload

variable {σ : Type} [NodeStore σ]

theorem root_start {session commitBatch : Nat} {root : Hash} {store : σ} {d : StateDownload}
    (opened : start session root store commitBatch = .ok d) : d.root = root := by
  unfold start at opened
  dsimp only at opened
  split at opened
  · cases opened
    rfl
  · split at opened <;> cases opened
    · rfl
    · exact (grown_schedule ..).root

theorem root_fail (d : StateDownload) (id : RequestId) : (d.fail id).2.root = d.root := by
  unfold fail
  split
  · rfl
  · exact (still_requeueAll ..).root

variable (σ) in
/-- A download stays with the trie that it began with. -/
theorem lasting_root (root : Hash) : Lasting σ fun d : StateDownload => d.root = root where
  reserve {d d' peer capacity live a} kept h := by
    change d.reserve peer capacity live = some (a, d') at h
    simp only [reserve] at h
    split at h
    · cases h
    · cases h
      exact kept
  fail {d} id kept := (root_fail d id).trans kept
  failPeer {d} peer kept :=
    failPeer_induction (P := fun d => d.root = root) peer kept fun id kept =>
      (root_fail _ id).trans kept
  deliver {d} board id peer payload kept := by
    change (d.deliver board.store id peer payload.nodesOf).1.root = root
    rw [← kept]
    unfold deliver
    split
    · rfl
    · rename_i requested _
      have taken := still_takeIn { d with inFlight := d.inFlight.filter (·.1 != id) } board.store
        requested 0 0 payload.nodesOf
      dsimp only
      split <;> rename_i heq <;> rw [heq] at taken
      · exact taken.root
      · exact (taken.trans (still_requeueAll ..)).root
  current := (lasting_true σ).current
  known := (lasting_true σ).known

end StateDownload

namespace Fetch.Hub

variable {σ : Type} {deeds deeds' : List Deed} {h h' h'' : Hub σ}

/-- Falling back turns the mode, and counts. -/
structure Turns (deeds : List Deed) (h h' : Hub σ) : Prop where
  mode : h'.board.progress.mode =
    if deeds.countP Deed.isFellBack = 0 then h.board.progress.mode else .full
  fallbacks : h'.metrics.stateFetchFallbacks =
    h.metrics.stateFetchFallbacks + deeds.countP Deed.isFellBack

theorem Turns.after (turns : h'.Turns deeds h'') (calm : h.Calm h') : h.Turns deeds h'' := by
  obtain ⟨mode, fallbacks⟩ := turns
  rw [calm.mode] at mode
  rw [calm.fallbacks] at fallbacks
  exact ⟨mode, fallbacks⟩

theorem Turns.of_count (turns : h.Turns deeds h')
    (same : deeds'.countP Deed.isFellBack = deeds.countP Deed.isFellBack) : h.Turns deeds' h' := by
  obtain ⟨mode, fallbacks⟩ := turns
  rw [← same] at mode fallbacks
  exact ⟨mode, fallbacks⟩

theorem Calm.turns (calm : h.Calm h') : h.Turns [] h' := ⟨calm.mode, calm.fallbacks⟩

end Fetch.Hub

/-- What comes of a state is so as of now. -/
def Deed.Timely {σ : Type} (h : Hub σ) : Deed → Prop
  | .begun _ expires => expires = h.now + h.peers.config.maxStateFetch.ceilMillis
  | .fellBack now => now = h.now
  | .completed _ => True
  | .accepted _ | .handed _ => False

namespace Attempt

variable {σ : Type} {a : Attempt} {env : Surroundings} {h : Hub σ} {pivot : Header}
  {above : List Header} {expires : Nat}

/-- What comes of a signal while a state is fetched. -/
def heard [NodeStore σ] (env : Surroundings) (h : Hub σ) (run : Run StateDownload) :
    Signal → Run StateDownload × Hub σ × Option (Except SyncError Unit)
  | .deadline =>
    if (run.deadline? h).any (· ≤ h.now) then run.step h env.cancelled .deadline else (run, h, none)
  | signal => run.step h env.cancelled signal

theorem step_state [NodeStore σ] (run : Run StateDownload) (signal : Signal) :
    a.step env h (.state pivot above run expires) signal =
      a.onState env pivot above expires (heard env h run signal) := by
  cases signal with
  | deadline =>
    simp only [step, heard]
    split <;> rfl
  | woken => rfl
  | ended ticket ending => rfl

theorem heard_calm [NodeStore σ] (run : Run StateDownload) (signal : Signal) :
    h.Calm (heard env h run signal).2.1 := by
  cases signal with
  | deadline =>
    simp only [heard]
    split
    · exact Run.step_calm ..
    · exact .refl h
  | woken => exact Run.step_calm ..
  | ended ticket ending => exact Run.step_calm ..

theorem heard_sound [NodeStore σ] {P : StateDownload → Prop} (lasting : Lasting σ P)
    {run : Run StateDownload} (kept : P run.task) (signal : Signal) :
    Run.Sound P h (heard env h run signal) := by
  cases signal with
  | deadline =>
    simp only [heard]
    split
    · exact Run.step_sound lasting run h env.cancelled .deadline kept
    · exact ⟨kept, .refl h, by simp, by simp⟩
  | woken => exact Run.step_sound lasting run h env.cancelled .woken kept
  | ended ticket ending =>
    exact Run.step_sound lasting run h env.cancelled (.ended ticket ending) kept

/-- What a download comes to that may take until `expires`. -/
def ending (expires : Nat) :
    Run StateDownload × Hub σ × Option (Except SyncError Unit) → List Deed
  | (_, h, none) => if expires ≤ h.now then [.fellBack h.now] else []
  | (_, _, some (.error _)) => []
  | (run, _, some (.ok ())) => [.completed run.task]

theorem fallBack_eq (a : Attempt) (env : Surroundings) (pivot : Header) (above : List Header)
    (run : Run StateDownload) {h' : Hub σ} (calm : h.Calm h') :
    ∃ turned, h.Turns [.fellBack h.now] turned ∧ a.fallBack env h' pivot above run =
      ({ a with mode := .full } : Attempt).continueAbove env turned pivot above :=
  ⟨_, ⟨rfl, congrArg (· + 1) calm.fallbacks⟩, rfl⟩

/-- When the time is up, a download has ended, or the attempt goes on in full mode. -/
theorem ending_due (a : Attempt) (env : Surroundings) (pivot : Header) (above : List Header)
    {out : Run StateDownload × Hub σ × Option (Except SyncError Unit)} (calm : h.Calm out.2.1)
    (late : expires ≤ h.now) :
    (∃ task, ending expires out = [.completed task]) ∨ (∃ err, out.2.2 = some (.error err)) ∨
      ending expires out = [.fellBack h.now] ∧ ∃ turned, h.Turns [.fellBack h.now] turned ∧
        a.onState env pivot above expires out =
          ({ a with mode := .full } : Attempt).continueAbove env turned pivot above := by
  obtain ⟨run, h', result⟩ := out
  have now : h'.now = h.now := calm.now
  match result with
  | none =>
    rw [ending, onState, now, if_pos late, if_pos late]
    exact .inr (.inr ⟨rfl, fallBack_eq a env pivot above run calm⟩)
  | some (.error err) => exact .inr (.inl ⟨err, rfl⟩)
  | some (.ok ()) => exact .inl ⟨run.task, rfl⟩

theorem ending_timely {out : Run StateDownload × Hub σ × Option (Except SyncError Unit)}
    (calm : h.Calm out.2.1) : ∀ d ∈ ending expires out, d.Timely h := by
  obtain ⟨run, h', result⟩ := out
  match result with
  | none =>
    simp only [ending]
    split
    · simpa [Deed.Timely] using calm.now
    · simp
  | some (.error err) => simp [ending]
  | some (.ok ()) => simp [ending, Deed.Timely]

/-- What comes of the pivot once the local chain took it. -/
def fetchDeeds [NodeStore σ] (env : Surroundings) (h : Hub σ) (pivot : Header) : List Deed :=
  if !env.hasStore || env.cancelled then []
  else
    let h := h.setPhase .fetchingState
    let config := h.peers.config
    let expires := h.now + config.maxStateFetch.ceilMillis
    .begun pivot expires ::
      match StateDownload.start env.session pivot.stateRoot h.board.store
          config.stateCommitBatch.toNat with
      | .error _ => []
      | .ok task => ending expires (Run.start task (h.setProgress task.report) env.cancelled)

theorem fetchDeeds_timely [NodeStore σ] : ∀ d ∈ fetchDeeds env h pivot, d.Timely h := by
  unfold fetchDeeds
  split
  · simp
  · intro d hd
    rcases List.mem_cons.mp hd with rfl | hd
    · rfl
    · split at hd
      · cases hd
      · rename_i task _
        have reported : h.Calm ((h.setPhase .fetchingState).setProgress task.report) := ⟨rfl, rfl, rfl⟩
        exact ending_timely (reported.trans (Run.start_calm ..)) d hd

/-- What becomes of the download of a pivot's state, and of the attempt. -/
inductive Fetches (a : Attempt) (h : Hub σ) (pivot : Header) (above : List Header) (expires : Nat) :
    List Deed → Step σ → Prop where
  | waits {h' : Hub σ} {run : Run StateDownload} (calm : h.Calm h') (early : h.now < expires)
      (root : run.task.root = pivot.stateRoot) :
      Fetches a h pivot above expires [] (h', .ok (some (a, .state pivot above run expires)))
  | fails {h' : Hub σ} (calm : h.Calm h') (err : SyncError) :
      Fetches a h pivot above expires [] (h', .error err)
  | completes {task : StateDownload} {out : Step σ} (root : task.root = pivot.stateRoot)
      (done : task.isDone = true) (goes : a.Goes h out) :
      Fetches a h pivot above expires [.completed task] out
  | fallsBack {h' : Hub σ} {out : Step σ} (late : expires ≤ h.now)
      (turned : h.Turns [.fellBack h.now] h') (goes : { a with mode := .full }.Goes h' out) :
      Fetches a h pivot above expires [.fellBack h.now] out

theorem onState_fetches (executes : a.Executes above)
    {out : Run StateDownload × Hub σ × Option (Except SyncError Unit)} (calm : h.Calm out.2.1)
    (run : Run.Sound (fun d => d.root = pivot.stateRoot) h out) :
    a.Fetches h pivot above expires (ending expires out)
      (a.onState env pivot above expires out) := by
  obtain ⟨r, h', result⟩ := out
  have now : h'.now = h.now := calm.now
  match result with
  | none =>
    simp only [ending, onState, now]
    split
    · rename_i late
      have everything : ({ a with mode := .full } : Attempt).Executes above := by
        intro snap
        cases snap
      obtain ⟨turned, turns, continued⟩ := fallBack_eq a env pivot above r calm
      rw [continued]
      exact .fallsBack late turns (continueAbove_goes pivot everything)
    · exact .waits calm (Nat.lt_of_not_le ‹_›) run.kept
  | some (.error err) => exact .fails calm err
  | some (.ok ()) =>
    exact .completes run.kept (run.done rfl) ((continueAbove_goes pivot executes).after calm)

theorem fetchState_fetches [NodeStore σ] (store : env.hasStore = true)
    (executes : a.Executes above) :
    (fetchDeeds env h pivot = [] ∧ a.fetchState env h pivot above = (h, .error .cancelled)) ∨
      ∃ deeds expires, fetchDeeds env h pivot = .begun pivot expires :: deeds ∧
        expires = h.now + h.peers.config.maxStateFetch.ceilMillis ∧
        a.Fetches h pivot above expires deeds (a.fetchState env h pivot above) := by
  unfold fetchDeeds fetchState
  simp only [store, Bool.not_true, Bool.false_or, Bool.false_eq_true, ↓reduceIte]
  split
  · exact .inl ⟨rfl, rfl⟩
  · refine .inr ⟨_, _, rfl, rfl, ?_⟩
    cases opened : StateDownload.start env.session pivot.stateRoot
      (h.setPhase .fetchingState).board.store
      (h.setPhase .fetchingState).peers.config.stateCommitBatch.toNat with
    | error err => exact .fails (.setPhase ..) _
    | ok task =>
      have reported : h.Calm ((h.setPhase .fetchingState).setProgress task.report) := ⟨rfl, rfl, rfl⟩
      have started := Run.start_sound (StateDownload.lasting_root σ pivot.stateRoot) task
        ((h.setPhase .fetchingState).setProgress task.report) env.cancelled
        (StateDownload.root_start opened)
      exact onState_fetches executes (reported.trans (Run.start_calm ..))
        (started.after ⟨rfl, rfl, rfl, rfl⟩)

theorem Fetches.turns {deeds : List Deed} {out : Step σ}
    (fetches : a.Fetches h pivot above expires deeds out) : h.Turns deeds out.1 := by
  cases fetches with
  | waits calm early root => exact calm.turns
  | fails calm err => exact calm.turns
  | completes root done goes => exact goes.calm.turns.of_count rfl
  | fallsBack late turned goes =>
    exact ⟨goes.calm.mode.trans turned.mode, goes.calm.fallbacks.trans turned.fallbacks⟩

end Attempt
end ChainSync
