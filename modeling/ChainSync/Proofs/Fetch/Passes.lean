import ChainSync.Proofs.Fetch.Occupancy
import ChainSync.Proofs.Fetch.Working
set_option autoImplicit false

/-!
A run of a task from its start: each of its requests is told of once, and it waits for nothing only
while there is nobody to ask.
-/

namespace ChainSync

theorem PeerSet.mem_forCategory {s : PeerSet} {c : Category} {p : SyncPeer} :
    p ∈ s.forCategory c ↔ p ∈ s.peers ∧ s.canServe c p := by
  rw [forCategory, List.mem_mergeSort, List.mem_filter]

namespace Fetch

variable {σ τ : Type} [Workload τ]

namespace Run

variable {r : Run τ} {h : Hub σ} {c : Category}

theorem inFlight_offer (r : Run τ) (h : Hub σ) (live : List PeerId) (peer : SyncPeer) :
    r.inFlight ≤ (r.offer h live peer).1.inFlight := by
  rcases r.offer_cases h live peer with
    ⟨same, -⟩ | ⟨slot, peers, -, ⟨same, -⟩ | ⟨capacity, a, task, -, same⟩⟩
  · rw [same]
  · rw [same]
  · rw [same]
    exact Nat.le_succ _

/-- Offers end no requests. -/
theorem inFlight_offers (live : List PeerId) (peers : List SyncPeer) (r : Run τ) (h : Hub σ) :
    r.inFlight ≤ (peers.foldl (fun (r, h) peer => r.offer h live peer) (r, h)).1.inFlight :=
  offers_induction (P := fun r' _ => r.inFlight ≤ r'.inFlight) live peers (h := h) (Nat.le_refl _)
    fun r' h' peer hle => Nat.le_trans hle (r'.inFlight_offer h' live peer)

theorem activeIds_assign (r : Run τ) (h : Hub σ) :
    (r.assign h).2.peers.activeIds = h.peers.activeIds := by
  refine assign_induction (P := fun _ h' => h'.peers.activeIds = h.peers.activeIds) rfl ?_
  intro r' h' live peer active
  rcases r'.offer_cases h' live peer with
    ⟨same, -⟩ | ⟨slot, peers, begun, ⟨same, -⟩ | ⟨capacity, a, task, -, same⟩⟩
  · rwa [same]
  · rw [same]
    exact (PeerSet.activeIds_release ..).trans ((PeerSet.activeIds_beginRequest begun).trans active)
  · rw [same]
    exact (PeerSet.activeIds_beginRequest begun).trans active

/-- If no request comes of offering work to free peers, there was none for any of them. -/
theorem declined (live : List PeerId) (peers : List SyncPeer)
    (category : Workload.category r.task = c) (free : h.peers.Free c)
    (active : ∀ p ∈ peers, p.id ∈ h.peers.activeIds)
    (idle : (peers.foldl (fun (r, h) peer => r.offer h live peer) (r, h)).1.inFlight = 0) :
    ∀ p ∈ peers, ∃ capacity, Workload.reserve r.task p.id capacity live = none := by
  induction peers generalizing h with
  | nil => exact fun _ hp => absurd hp List.not_mem_nil
  | cons peer peers ih =>
    change (peers.foldl (fun (r, h) peer => r.offer h live peer)
      (r.offer h live peer)).1.inFlight = 0 at idle
    simp only [List.mem_cons, forall_eq_or_imp] at active ⊢
    rcases r.offer_cases h live peer with
      ⟨-, err, refused⟩ | ⟨slot, taken, begun, ⟨same, nothing⟩ | ⟨capacity, a, task, -, same⟩⟩
    · obtain ⟨slot, taken, begun⟩ := free.beginRequest active.1
      rw [category, begun] at refused
      cases refused
    · rw [category] at begun
      rw [same] at idle
      have known : (taken.release slot).activeIds = h.peers.activeIds :=
        (PeerSet.activeIds_release ..).trans (PeerSet.activeIds_beginRequest begun)
      exact ⟨nothing, ih (h := h.setPeers (taken.release slot)) (free.decline begun)
        (fun p hp => known ▸ active.2 p hp) idle⟩
    · have more := inFlight_offers live peers (r.offer h live peer).1 (r.offer h live peer).2
      have made : (r.offer h live peer).1.inFlight = r.inFlight + 1 := by rw [same]
      rw [made] at more
      exact absurd (idle ▸ more) (Nat.not_succ_le_zero _)

end Run

namespace Watch

variable [Receiver σ τ] [Asking τ]

section Passes

variable {P : τ → Prop} {w : Watch σ τ} {c : Category}

omit [Receiver σ τ] [Asking τ] in
theorem Occupancy.free (h : w.Occupancy c) (idle : w.run.errands = []) : w.hub.peers.Free c := by
  refine ⟨h.unique, h.room, fun p hp => Nat.le_zero.mp ?_⟩
  have held := h.counters p hp
  rwa [Watch.held, underWay, idle] at held

/-- A pass that leaves a run without requests found nobody to ask. -/
theorem activeIds_of_idle (ready : Ready σ P) (ledger : w.Ledger) (occupancy : w.Occupancy c)
    (kept : P w.run.task) (unfinished : Workload.isDone w.run.task = false)
    (idle : (w.run.assign w.hub).1.inFlight = 0) : w.hub.peers.activeIds = [] := by
  by_contra someone
  have before : w.run.inFlight = 0 := Nat.le_zero.mp (idle ▸ Run.inFlight_offers ..)
  have errands : w.run.errands = [] := List.length_eq_zero_iff.mp (ledger.counter ▸ before)
  have unasked (id : RequestId) : Asking.asks w.run.task id = none := by
    refine Option.eq_none_iff_forall_ne_some.mpr fun x asked => ?_
    obtain ⟨e, he, -⟩ := ledger.owned asked
    simp [errands] at he
  have free := occupancy.free errands
  obtain ⟨id, hid, offered⟩ := ready.offers kept unfinished unasked someone
  obtain ⟨p, hp, live, rfl⟩ := PeerSet.mem_activeIds.mp hid
  have listed : p ∈ w.hub.peers.forCategory c := by
    refine PeerSet.mem_forCategory.mpr ⟨hp, ?_⟩
    rw [PeerSet.canServe, live, free.idle p hp, decide_eq_true free.room]
    rfl
  obtain ⟨capacity, declined⟩ := Run.declined w.hub.peers.activeIds _ occupancy.task free
    (fun p hp => PeerSet.mem_activeIds.mpr
      ⟨p, (PeerSet.mem_forCategory.mp hp).1, (Bool.and_eq_true_iff.mp
        (PeerSet.mem_forCategory.mp hp).2).1, rfl⟩)
    (occupancy.task ▸ idle) p listed
  have offered := offered capacity
  rw [declined] at offered
  cases offered

omit [Asking τ] in
theorem enduring_conclude (enduring : Enduring σ P) {r : Run τ} (kept : P r.task) (h : Hub σ)
    (e : Errand) (ending : Ending) (took : (r.conclude h e ending).2.2 = .ok ()) :
    P (r.conclude h e ending).1.task := by
  cases ending with
  | answered payload =>
    have delivered := enduring.deliver h.board e.id e.call.peer payload kept
    simp only [Run.conclude] at took ⊢
    generalize Receiver.deliver r.task h.board e.id e.call.peer payload = out
      at delivered took ⊢
    obtain ⟨task, board, result⟩ := out
    cases result with
    | error err => cases took
    | ok delivery => exact delivered delivery rfl
  | failed error => exact enduring.fail e.id kept
  | timedOut => exact enduring.fail e.id kept

omit [Asking τ] in
theorem enduring_assign (enduring : Enduring σ P) (kept : P w.run.task) :
    P (w.run.assign w.hub).1.task := by
  refine Run.assign_induction (P := fun r _ => P r.task) kept fun r h live peer kept => ?_
  rcases r.offer_cases h live peer with
    ⟨same, -⟩ | ⟨slot, peers, -, ⟨same, -⟩ | ⟨capacity, a, task, reserved, same⟩⟩
  · rwa [same]
  · rwa [same]
  · rw [same]
    exact enduring.reserve kept reserved

omit [Asking τ] in
/-- A run that goes on keeps what its task keeps. -/
theorem enduring_act (enduring : Enduring σ P) (kept : P w.run.task) (op : Op σ)
    (going : (w.act op).result = none) : P (w.act op).run.task := by
  have happens := happens_act w op
  generalize w.act op = next at happens going
  cases happens with
  | nothing => exact kept
  | left _ result => cases going
  | passed waitingSince metrics => exact enduring_assign enduring kept
  | ended under => exact kept
  | @told e ending arrived run hub first concluded =>
    have keeps := enduring_conclude enduring (r := settled w.run e.call.ticket) kept w.hub e ending
    rw [concluded] at keeps
    exact keeps rfl
  | refused first concluded => cases going
  | noted event events =>
    cases event with
    | registered peer => exact kept
    | unregistered peer => exact enduring.failPeer peer kept
    | dropped peer => exact enduring.failPeer peer kept
  | waited timely => exact kept
  | aside doing => exact kept

omit [Asking τ] in
theorem enduring_play (enduring : Enduring σ P) (start : w.result = none → P w.run.task)
    (ops : List (Op σ)) : (w.play ops).result = none → P (w.play ops).run.task :=
  play_invariant (P := fun w => w.result = none → P w.run.task) start
    fun _ op _ going kept => enduring_act enduring (kept going) op

end Passes

omit [Asking τ] in
/-- Told the ends that wait, one after the other, a run knows them all, unless one of them is its
own end. -/
theorem play_reports (n : Nat) (w : Watch σ τ) :
    (w.play (List.replicate n .report)).result.isSome ∨
      (w.play (List.replicate n .report)).reported =
        w.reported ++ (w.arrived.take n).map fun x => (x.1.call, x.2) := by
  induction n generalizing w with
  | zero => exact .inr (by simp [play])
  | succ n ih =>
    by_cases finished : w.result.isSome
    · rw [play_over finished]
      exact .inl finished
    · have going : w.result = none := by simpa using finished
      have next : w.play (List.replicate (n + 1) .report) =
          (w.act .report).play (List.replicate n .report) := by
        rw [List.replicate_succ, play, List.foldl_cons, apply_eq going]
        rfl
      rw [next]
      cases waiting : w.arrived with
      | nil =>
        have same : w.act .report = w := by simp only [act, waiting]
        rw [same]
        simpa [waiting] using ih w
      | cons x arrived =>
        obtain ⟨e, ending⟩ := x
        have told : (w.act .report).result.isSome ∨
            (w.act .report).reported = w.reported ++ [(e.call, ending)] ∧
              (w.act .report).arrived = arrived := by
          simp only [act, waiting]
          split
          · exact .inl rfl
          · exact .inr ⟨rfl, rfl⟩
        rcases told with finished | ⟨reported, left⟩
        · rw [play_over finished]
          exact .inl finished
        · refine (ih (w.act .report)).imp_right fun more => ?_
          rw [more, reported, left, List.take_succ_cons, List.map_cons, List.append_assoc,
            List.singleton_append]

/-- What a run owes at any time, and to whom. -/
structure Accounted (w : Watch σ τ) : Prop where
  /-- Requests are told apart, and each was told of once or is waited for. -/
  distinct : (w.issued.map (·.ticket)).Nodup
  once : w.issued.Perm (w.reported.map Prod.fst ++ w.run.calls)
  /-- The counter is the number of requests not told of yet, and not zero when one is to be. -/
  counter : w.run.inFlight + w.reported.length = w.issued.length
  positive : w.arrived ≠ [] → 0 < w.run.inFlight
  /-- A request that is waited for ends in time, and its end is told in its turn. -/
  ends : ∀ e ∈ w.run.errands, w.hub.now ≤ e.call.expires ∨ ∃ ending, (e, ending) ∈ w.arrived
  told : ∀ n, (w.play (List.replicate n .report)).result.isSome ∨
    (w.play (List.replicate n .report)).reported =
      w.reported ++ (w.arrived.take n).map fun x => (x.1.call, x.2)
  /-- The task waits only for requests that are waited for. -/
  owned : ∀ id x, Asking.asks w.run.task id = some x →
    ∃ e ∈ w.run.errands, e.id = id ∧ (e.call.peer, e.call.request) = x
  /-- Nothing is left to wait for only while nobody can be asked. -/
  idle : w.result = none → Workload.isDone w.run.task = false →
    (w.run.assign w.hub).1.inFlight = 0 → (w.run.assign w.hub).2.peers.activeIds = []

/-- Nobody else has requests of this kind under way, now or later. -/
structure Alone (c : Category) (h : Hub σ) (ops : List (Op σ)) : Prop where
  idle : ∀ p ∈ h.peers.peers, p.inFlight.get c = 0
  apart : ∀ doing, .beside doing ∈ ops → doing.Spares c

theorem accounted_play [Accountable σ τ] {P : τ → Prop} (ready : Ready σ P) {task : τ}
    (kept : P task) (unasked : ∀ id, Asking.asks task id = none) {h : Hub σ}
    (unique : h.peers.ids.Nodup) (room : 0 < h.peers.config.maxInFlightPerPeer.toNat)
    {ops : List (Op σ)} (alone : Alone (Workload.category task) h ops) :
    ((opened task h).play ops).Accounted := by
  have ledger : ((opened task h).play ops).Ledger := ledger_play (ledger_opened unasked h) ops
  have occupancy : ((opened task h).play ops).Occupancy (Workload.category task) :=
    occupancy_play (occupancy_opened rfl unique room alone.idle) (ledger_opened unasked h)
      alone.apart
  have kept := enduring_play ready.toEnduring (w := opened task h) (fun _ => kept) ops
  generalize (opened task h).play ops = w at ledger occupancy kept
  refine ⟨ledger.tickets, ledger.once, ?_, fun waiting => ?_, fun e he => ?_,
    fun n => w.play_reports n, fun id x asked => ledger.owned asked,
    fun going unfinished none => ?_⟩
  · have length := ledger.once.length_eq
    rw [List.length_append, List.length_map, Run.calls, List.length_map] at length
    rw [ledger.counter, length, Nat.add_comm]
  · obtain ⟨x, hx⟩ := List.exists_mem_of_ne_nil _ waiting
    rw [ledger.counter]
    exact List.length_pos_of_mem (ledger.arrived x hx)
  · by_cases under : e ∈ w.underWay
    · exact .inl (ledger.timely e under)
    · obtain ⟨x, hx, same⟩ : ∃ x ∈ w.arrived, x.1.call.ticket = e.call.ticket := by
        simpa [mem_underWay, he] using under
      have this : x.1 = e :=
        List.inj_on_of_nodup_map ledger.nodup_errands (ledger.arrived x hx) he same
      exact .inr ⟨x.2, this ▸ hx⟩
  · rw [Run.activeIds_assign]
    exact activeIds_of_idle ready ledger occupancy (kept going) unfinished none

end Watch

/-- Requests end, peers come and go, and others ask for other things in any order; still a run tells
of each of its requests once, counts those that are left, and leaves no work with a request that is
not waited for. As long as it is not done it waits for nothing only while all peers are dropped.
The heights of a skeleton do not fall, or its gaps would have no widths. -/
theorem requests_accounted {σ : Type} (h : Hub σ) (ops : List (Watch.Op σ))
    (unique : h.peers.ids.Nodup) (room : 0 < h.peers.config.maxInFlightPerPeer.toNat) :
    (∀ (session : Nat) (origin : Header) (skeleton : List Header) (master : PeerId)
      (engine : Engine) (limit : Nat), (origin :: skeleton).Pairwise (·.height ≤ ·.height) →
      Watch.Alone .headers h ops →
        ((Watch.opened (HeaderFill.start session origin skeleton master engine limit) h).play
          ops).Accounted) ∧
    (∀ (session : Nat) (headers : List Header) (size : Nat), Watch.Alone .bodies h ops →
      ((Watch.opened (.start session headers size : BlockFetch Body) h).play ops).Accounted) ∧
    ∀ (session : Nat) (headers : List Header) (size : Nat), Watch.Alone .receipts h ops →
      ((Watch.opened (.start session headers size : BlockFetch (List Receipt)) h).play
        ops).Accounted := by
  refine ⟨?fill, ?bodies, ?receipts⟩
  case fill =>
    intro session origin skeleton master engine limit sorted alone
    exact Watch.accounted_play (HeaderFill.ready σ)
      (HeaderFill.working_start sorted session master engine limit) (fun _ => rfl) unique room alone
  case bodies =>
    intro session headers size alone
    exact Watch.accounted_play (BlockFetch.ready σ) (BlockFetch.working_start session headers size)
      (fun _ => rfl) unique room alone
  case receipts =>
    intro session headers size alone
    exact Watch.accounted_play (BlockFetch.ready σ) (BlockFetch.working_start session headers size)
      (fun _ => rfl) unique room alone

/-- The only peer leaves with the work, and is back before its answer is looked at. -/
theorem requests_accounted_comeback :
    let info : PeerInfo :=
      { id := 1, version := 68, headHash := 0, head := 0, totalDifficulty := .ofNat 0
        forkId := none, connection := 0 }
    let peer : SyncPeer := ⟨info, .idle, ⟨0, 0, 0, 0⟩, ⟨1, 1, 1, 1⟩, none, 0⟩
    let h : Hub Unit := { peers := { config := {}, peers := [peer] }, board := ⟨{}, ()⟩ }
    let fill : HeaderFill := .start 7 {} [{ number := 3 }] 1 (.ethash 0) 2
    let ops : List (Watch.Op Unit) :=
      [.turn false, .elapse 10, .beside (.unregister 1), .arrive 0 (.answered (.headers [])),
        .beside (.register info), .event, .turn false, .event, .report]
    let w := (Watch.opened fill h).play ops
    w.Accounted ∧ w.issued.length = 2 ∧ w.run.inFlight = 1 := by
  intro info peer h fill ops w
  have accounted := (requests_accounted h ops (by decide) (by decide)).1 7 {} [{ number := 3 }] 1
    (.ethash 0) 2 (by decide) ⟨by simp [h, peer, PerCategory.get], by simp [ops, Doing.Spares]⟩
  exact ⟨accounted, by decide +kernel, by decide +kernel⟩

end Fetch
end ChainSync
