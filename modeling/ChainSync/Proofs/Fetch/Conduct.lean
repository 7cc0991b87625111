import ChainSync.Proofs.Fetch.Watch
set_option autoImplicit false

/-!
What a run does between two answers: it offers work, sees whether it has to wait, takes in events
and leaves. What each of these keeps, the run keeps.
-/

namespace ChainSync.Fetch.Run

variable {σ τ : Type} [Workload τ]

section Offers

/-- What offering work to a peer comes to: it has no slot, there is nothing for it, or it gets a
request. -/
theorem offer_cases (r : Run τ) (h : Hub σ) (live : List PeerId) (peer : SyncPeer) :
    (r.offer h live peer = (r, h) ∧
      ∃ err, h.peers.beginRequest peer.id (Workload.category r.task) = .error err) ∨
    ∃ slot peers, h.peers.beginRequest peer.id (Workload.category r.task) = .ok (slot, peers) ∧
      (r.offer h live peer = (r, h.setPeers (peers.release slot)) ∧
        (∃ capacity, Workload.reserve r.task peer.id capacity live = none) ∨
      ∃ capacity a task, Workload.reserve r.task peer.id capacity live = some (a, task) ∧
        let (call, h') := (h.setPeers peers).send peer (Workload.category r.task) a.request
        r.offer h live peer = ({ r with
          task
          errands := r.errands ++ [⟨call, a.id, a.range⟩]
          inFlight := r.inFlight + 1 }, h')) := by
  unfold offer
  dsimp only
  split
  · exact .inl ⟨rfl, _, ‹_›⟩
  · rename_i slot peers begun
    refine .inr ⟨slot, peers, begun, ?_⟩
    split
    · exact .inl ⟨rfl, _, ‹_›⟩
    · exact .inr ⟨_, _, _, ‹_›, rfl⟩

/-- What each offer keeps, offers to any peers keep. -/
theorem offers_induction {P : Run τ → Hub σ → Prop} (live : List PeerId) (peers : List SyncPeer)
    {r : Run τ} {h : Hub σ} (start : P r h)
    (step : ∀ r h peer, P r h → P (Run.offer r h live peer).1 (Run.offer r h live peer).2) :
    let out := peers.foldl (fun (r, h) peer => r.offer h live peer) (r, h)
    P out.1 out.2 := by
  induction peers generalizing r h with
  | nil => exact start
  | cons peer peers ih => exact ih (step r h peer start)

/-- What each offer of a pass keeps, the pass keeps. -/
theorem assign_induction {P : Run τ → Hub σ → Prop} {r : Run τ} {h : Hub σ} (start : P r h)
    (step : ∀ r h live peer, P r h → P (Run.offer r h live peer).1 (Run.offer r h live peer).2) :
    P (r.assign h).1 (r.assign h).2 :=
  offers_induction _ _ start fun r h peer => step r h _ peer

end Offers

omit [Workload τ] in
/-- A run that has to wait marks since when, and counts it. -/
theorem awaitPeers_eq (r : Run τ) (h : Hub σ) : ∃ since throttle, r.awaitPeers h =
    ({ r with waitingSince := since }, { h with metrics := { h.metrics with throttle } }) := by
  unfold awaitPeers
  split
  · split <;> exact ⟨_, _, rfl⟩
  · exact ⟨_, _, rfl⟩

/-- A task that has nothing to do ends before anybody is asked. -/
theorem start_of_isDone {task : τ} (done : Workload.isDone task) (h : Hub σ) (cancelled : Bool) :
    (Run.start task h cancelled).1.task = task ∧ (Run.start task h cancelled).2.2.isSome := by
  cases cancelled <;> simp [Run.start, proceed, turn, done]

/-- What a run keeps of itself and of the hub, whatever it does of its own accord. -/
structure Conduct (I : Run τ → Hub σ → Prop) : Prop where
  offer : ∀ {r : Run τ} {h : Hub σ} (live : List PeerId) (peer : SyncPeer), I r h →
    I (r.offer h live peer).1 (r.offer h live peer).2
  awaitPeers : ∀ {r : Run τ} {h : Hub σ}, I r h → I (r.awaitPeers h).1 (r.awaitPeers h).2
  noteEvent : ∀ {r : Run τ} {h : Hub σ} (event : PeerEvent) (events : EventBus PeerEvent), I r h →
    I (r.noteEvent event) { h with peers := { h.peers with events } }
  leave : ∀ {r : Run τ} {h : Hub σ}, I r h → I r (r.leave h)

theorem Conduct.and {I J : Run τ → Hub σ → Prop} (first : Conduct I) (second : Conduct J) :
    Conduct fun r h => I r h ∧ J r h where
  offer live peer kept := ⟨first.offer live peer kept.1, second.offer live peer kept.2⟩
  awaitPeers kept := ⟨first.awaitPeers kept.1, second.awaitPeers kept.2⟩
  noteEvent event events kept :=
    ⟨first.noteEvent event events kept.1, second.noteEvent event events kept.2⟩
  leave kept := ⟨first.leave kept.1, second.leave kept.2⟩

/-- A run under way, or one that came to its end. -/
structure Reached (I : Run τ → Hub σ → Prop)
    (out : Run τ × Hub σ × Option (Except SyncError Unit)) : Prop where
  kept : I out.1 out.2.1
  done : out.2.2 = some (.ok ()) → Workload.isDone out.1.task

/-- The request that a run is told the end of, if it waits for one. -/
def told? (r : Run τ) : Signal → Option (Errand × Ending)
  | .ended ticket ending => (r.errands.find? (·.call.ticket == ticket)).map (·, ending)
  | .woken | .deadline => none

omit [Workload τ] in
theorem mem_of_told? {r : Run τ} {signal : Signal} {e : Errand} {ending : Ending}
    (told : r.told? signal = some (e, ending)) : e ∈ r.errands := by
  cases signal with
  | ended ticket ending =>
    obtain ⟨e', found, heq⟩ := Option.map_eq_some_iff.mp told
    cases heq
    exact List.mem_of_find?_eq_some found
  | woken | deadline => cases told

section Conduct

variable {I : Run τ → Hub σ → Prop} (conduct : Conduct I) {r : Run τ} {h : Hub σ}
include conduct

theorem turn_reached (cancelled : Bool) (start : I r h) : Reached I (r.turn h cancelled) := by
  unfold turn
  split
  · exact ⟨conduct.leave start, by simp⟩
  · split
    · exact ⟨conduct.leave start, fun _ => ‹_›⟩
    · have assigned : I (r.assign h).1 (r.assign h).2 :=
        assign_induction start fun _ _ live peer kept => conduct.offer live peer kept
      exact ⟨conduct.awaitPeers assigned, by simp⟩

theorem catchUp_reached (cancelled : Bool) (fuel : Nat) (start : I r h) :
    Reached I (catchUp cancelled fuel r h) := by
  induction fuel generalizing r h with
  | zero => exact ⟨start, by simp [catchUp]⟩
  | succ fuel ih =>
    unfold catchUp
    split
    · exact ⟨start, by simp⟩
    · rename_i event events _
      have turned := turn_reached conduct cancelled (conduct.noteEvent event events start)
      split <;> rename_i heq <;> rw [heq] at turned
      · exact turned
      · exact ih turned.kept

theorem proceed_reached (cancelled : Bool) (start : I r h) : Reached I (r.proceed h cancelled) := by
  have turned := turn_reached conduct cancelled start
  unfold proceed
  split <;> rename_i heq <;> rw [heq] at turned
  · exact turned
  · exact catchUp_reached conduct cancelled _ turned.kept

theorem wake_reached (cancelled : Bool) (start : I r h) : Reached I (r.wake h cancelled) := by
  unfold wake
  split
  · exact ⟨conduct.leave start, by simp⟩
  · exact catchUp_reached conduct cancelled _ start

theorem start_reached {task : τ} (cancelled : Bool)
    (start : I (Watch.opened task h).run (Watch.opened task h).hub) :
    Reached I (Run.start task h cancelled) := proceed_reached conduct cancelled start

/-- It comes down to what the run makes of the one end that it may be told of. -/
theorem step_reached [Receiver σ τ] (cancelled : Bool) (signal : Signal)
    (same : r.told? signal = none → I r h)
    (told : ∀ e ending, r.told? signal = some (e, ending) →
      I ((Watch.settled r e.call.ticket).conclude (h.finish e.call) e ending).1
        ((Watch.settled r e.call.ticket).conclude (h.finish e.call) e ending).2.1) :
    Reached I (r.step h cancelled signal) := by
  cases signal with
  | woken => exact wake_reached conduct cancelled (same rfl)
  | deadline => exact ⟨conduct.leave (same rfl), by simp [step]⟩
  | ended ticket ending =>
    simp only [step]
    split
    · rename_i missing
      exact ⟨same (by simp [told?, missing]), by simp⟩
    · rename_i e found
      obtain rfl : e.call.ticket = ticket := by simpa using List.find?_some found
      have concluded := told e ending (by simp [told?, found])
      unfold Watch.settled at concluded
      split <;> rename_i heq <;> rw [heq] at concluded
      · exact ⟨conduct.leave concluded, by simp⟩
      · exact proceed_reached conduct cancelled concluded

end Conduct

end ChainSync.Fetch.Run
