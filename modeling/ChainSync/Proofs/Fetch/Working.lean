import ChainSync.Proofs.Fetch.Accounts
import ChainSync.Proofs.Fetch.Allotment
import ChainSync.Proofs.Fetch.Release
import ChainSync.Proofs.Fetch.Steady
set_option autoImplicit false

/-!
A task that is not done and waits for nobody has work for somebody.
-/

namespace ChainSync

namespace Fetch

variable {σ τ : Type}

/-- What a task keeps of itself, as long as nothing ends the fetch. -/
structure Enduring (σ : Type) [Workload τ] [Receiver σ τ] (P : τ → Prop) : Prop where
  reserve : ∀ {t t' : τ} {peer : PeerId} {capacity : Nat} {live : List PeerId} {a : Assignment},
    P t → Workload.reserve t peer capacity live = some (a, t') → P t'
  fail : ∀ {t : τ} (id : RequestId), P t → P (Workload.fail t id).2
  failPeer : ∀ {t : τ} (peer : PeerId), P t → P (Workload.failPeer t peer).2
  deliver : ∀ {t : τ} (board : Board σ) (id : RequestId) (peer : PeerId) (payload : Payload), P t →
    ∀ delivery, (Receiver.deliver t board id peer payload).2.2 = .ok delivery →
      P (Receiver.deliver t board id peer payload).1

theorem Lasting.enduring [Workload τ] [Receiver σ τ] {P : τ → Prop} (lasting : Lasting σ P) :
    Enduring σ P :=
  ⟨lasting.reserve, lasting.fail, lasting.failPeer,
    fun board id peer payload h _ _ => lasting.deliver board id peer payload h⟩

/-- By what it keeps, a task that is not done and waits for nobody has work for somebody. -/
structure Ready (σ : Type) [Workload τ] [Receiver σ τ] [Asking τ] (P : τ → Prop) : Prop
    extends Enduring σ P where
  offers : ∀ {t : τ} {live : List PeerId}, P t → Workload.isDone t = false →
    (∀ id, Asking.asks t id = none) → live ≠ [] →
      ∃ peer ∈ live, ∀ capacity, (Workload.reserve t peer capacity live).isSome

namespace Queue

variable {α : Type} {q q' : Queue α} {id : RequestId} {r : InFlight} {peer : PeerId}

/-- Every position is in one place, and the next one to leave has not been delivered yet. -/
structure Working (q : Queue α) : Prop where
  balanced : ∃ start stop, Bench.Balanced start stop ⟨q, []⟩
  waiting : q.delivered.get? q.nextRelease = none

theorem Opens.working {start stop : Nat} (h : q.Opens start stop) : q.Working := by
  refine ⟨⟨start, stop, h.balanced⟩, ?_⟩
  rw [h.untouched.2]
  rfl

theorem Working.reserve (h : q.Working) {capacity : Nat} {live : List PeerId} {range : Range}
    (reserved : q.reserve peer capacity live = some (id, range, q')) : q'.Working := by
  obtain ⟨start, stop, balanced⟩ := h.balanced
  refine ⟨⟨start, stop, Bench.balanced_reserve balanced reserved⟩, ?_⟩
  obtain ⟨batch, failedBy, -, -, -, -, -, rfl⟩ := reserve_eq_some reserved
  exact h.waiting

/-- An answer of which nothing is kept. -/
theorem Working.putBack (h : q.Working) (taken : q.take? id = some (r, q')) (atFault : Bool) :
    (q'.complete r [] atFault).Working := by
  obtain ⟨start, stop, balanced⟩ := h.balanced
  have completed := Bench.balanced_complete (Bench.balanced_take balanced taken) [] atFault
  refine ⟨⟨start, stop, completed⟩, ?_⟩
  obtain ⟨delivered, next⟩ := q'.complete_keeps r [] atFault
  obtain ⟨-, rfl⟩ := take?_eq_some.mp taken
  rw [delivered, next, List.take_nil]
  exact h.waiting

theorem Working.fail (h : q.Working) (failed : q.fail? id = some (r, q')) : q'.Working := by
  rw [fail?_eq, Option.map_eq_some_iff] at failed
  obtain ⟨⟨r, taken⟩, ht, heq⟩ := failed
  cases heq
  exact h.putBack ht true

theorem Working.failPeer (h : q.Working) (peer : PeerId) : (q.failPeer peer).2.Working :=
  failPeer_induction (P := Working) peer h fun h failed => h.fail failed

/-- Whatever is kept of an answer, all that can leave then does. -/
theorem Working.takeReady (h : q.Working) (taken : q.take? id = some (r, q')) (items : List α)
    (atFault : Bool) : (q'.complete r items atFault).takeReady.2.Working := by
  obtain ⟨start, stop, balanced⟩ := h.balanced
  have completed := Bench.balanced_complete (Bench.balanced_take balanced taken) items atFault
  exact ⟨⟨start, stop, Bench.balanced_takeReady completed⟩, get?_release (Nat.le_refl _)⟩

/-- The next position to leave waits to be handed out, if it is in no one's hands. -/
theorem Working.pending (h : q.Working) (unfinished : q.isDone = false)
    (idle : q.inFlight = []) : q.pending ≠ [] := by
  obtain ⟨start, stop, balanced⟩ := h.balanced
  have behind : q.nextRelease < stop := by
    have last : q.stop = stop := balanced.stop_eq
    simpa [isDone, last] using unfinished
  have first : start ≤ q.nextRelease := balanced.start_le
  have once := (balanced.once q.nextRelease).trans (if_pos ⟨first, behind⟩)
  have inside : ¬(start ≤ q.nextRelease ∧ q.nextRelease < start + (q.nextRelease - start)) := by
    omega
  rw [Bench.cover_places, cover_delivered_eq_zero h.waiting, idle, if_neg inside] at once
  rintro none
  rw [none] at once
  cases once

theorem Working.offers (h : q.Working) (unfinished : q.isDone = false) (idle : q.inFlight = [])
    {live : List PeerId} (someone : live ≠ []) :
    ∃ peer ∈ live, ∀ capacity, (q.reserve peer capacity live).isSome :=
  exists_offered (h.pending unfinished idle) someone

theorem inFlight_eq_nil {request : Range → Request} (unasked : ∀ id, q.asks request id = none) :
    q.inFlight = [] := by
  refine List.eq_nil_iff_forall_not_mem.mpr fun x hx => ?_
  have gone := Keyed.lookup_eq_none_iff.mp (Option.map_eq_none_iff.mp (unasked x.1))
  exact gone (List.mem_map_of_mem hx)

end Queue

namespace BlockFetch

variable {δ : Type} [BlockData δ]

theorem ready (σ : Type) : Ready σ fun f : BlockFetch δ => f.queue.Working where
  reserve h hr := by
    obtain ⟨id, range, queue, handed, -, rfl⟩ := reserve_eq_some hr
    exact h.reserve handed
  fail {f} id h := by
    simp only [Workload.fail, fail]
    split
    · exact h.fail ‹_›
    · exact h
  failPeer peer h := h.failPeer peer
  deliver {f} board id peer payload h _ _ := by
    simp only [Receiver.deliver, deliver_fst]
    unfold takeIn
    split
    · exact h
    · rename_i r taken ht
      dsimp only
      rw [(foldl_place_keeps _ _).2.2]
      exact h.takeReady ht ..
  offers {f live} h unfinished unasked someone := by
    obtain ⟨peer, hp, offered⟩ := h.offers unfinished (Queue.inFlight_eq_nil unasked) someone
    exact ⟨peer, hp, fun capacity => (Option.isSome_map ..).trans (offered capacity)⟩

theorem working_start (session : Nat) (headers : List Header) (size : Nat) :
    (start session headers size : BlockFetch δ).queue.Working :=
  (Queue.Opens.count session 0 _ size true).working

end BlockFetch
end Fetch

open Fetch

namespace HeaderFill

theorem ready (σ : Type) : Ready σ fun f : HeaderFill => f.queue.Working where
  reserve h hr := by
    obtain ⟨id, range, queue, handed, -, rfl⟩ := reserve_eq_some hr
    exact h.reserve handed
  fail {f} id h := by
    simp only [Workload.fail, fail]
    split
    · exact h.fail ‹_›
    · exact h
  failPeer peer h := h.failPeer peer
  deliver {f} board id peer payload h delivery took := by
    change (f.deliver id peer payload.headersOf).2 = .ok delivery at took
    change (f.deliver id peer payload.headersOf).1.queue.Working
    rcases f.deliver_cases id peer payload.headersOf with
      ⟨-, heq⟩ | ⟨r, queue, ht, ⟨mismatches, -, err, ended⟩ | ⟨mismatches, atFault, heq⟩ |
        ⟨heq, -⟩⟩
    · rwa [heq]
    · rw [took] at ended
      cases ended
    · rw [heq]
      exact h.putBack ht atFault
    · rw [heq]
      exact h.takeReady ht payload.headersOf false
  offers {f live} h unfinished unasked someone := by
    obtain ⟨peer, hp, offered⟩ := h.offers unfinished (Queue.inFlight_eq_nil unasked) someone
    exact ⟨peer, hp, fun capacity => (Option.isSome_map ..).trans (offered capacity)⟩

theorem working_start {origin : Header} {skeleton : List Header}
    (sorted : (origin :: skeleton).Pairwise (·.height ≤ ·.height)) (session : Nat)
    (master : PeerId) (engine : Engine) (limit : Nat) :
    (start session origin skeleton master engine limit).queue.Working := by
  cases skeleton with
  | nil =>
    have tiles : Tiles 0 (gaps origin.height []) 0 := rfl
    exact (Queue.Opens.ranges session false tiles fun _ => rfl).working
  | cons s rest =>
    have nonempty : gaps origin.height (s :: rest) = [] → origin.height + 1 = 0 := by simp [gaps]
    exact (Queue.Opens.ranges session false (tiles_gaps_of_le sorted) nonempty).working

end HeaderFill
end ChainSync
