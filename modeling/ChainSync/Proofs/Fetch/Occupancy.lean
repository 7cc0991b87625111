import ChainSync.Proofs.Fetch.Ledger
import ChainSync.Proofs.Peer.Active
set_option autoImplicit false

/-!
The slots that a run holds while nobody else asks for its kind of data. A counter may have forgotten
slots, of peers that left and came back, but it never stands above the requests under way.
-/

namespace ChainSync

namespace PeerSet

variable {s s' : PeerSet} {c : Category}

/-- Peers may come and go; requests of this kind are neither begun nor ended. -/
structure Spares (c : Category) (s s' : PeerSet) : Prop where
  config : s'.config = s.config
  unique : s.ids.Nodup → s'.ids.Nodup
  counters : ∀ p' ∈ s'.peers, p'.inFlight.get c = 0 ∨
    ∃ p ∈ s.peers, p'.id = p.id ∧ p'.inFlight.get c = p.inFlight.get c

theorem Quiet.spares (quiet : Quiet s s') (c : Category) : Spares c s s' := by
  refine ⟨quiet.config, fun unique => unique.sublist quiet.ids, fun p' hp' => .inr ?_⟩
  obtain ⟨p, hp, hid, same⟩ := quiet.peers p' hp'
  exact ⟨p, hp, hid, by rw [same]⟩

theorem spares_modify {d : Category} (other : c ≠ d) (id : PeerId) (f : Nat → Nat) :
    Spares c s (s.modify id fun p => { p with inFlight := p.inFlight.modify d f }.refresh) := by
  refine ⟨rfl, fun unique => ?_, fun p' hp' => .inr ?_⟩
  · have ids := ids_modify s id (f := fun p => { p with inFlight := p.inFlight.modify d f }.refresh)
      fun _ => SyncPeer.id_refresh _
    rwa [ids]
  · obtain ⟨p, hp, rfl⟩ := List.mem_map.mp (peers_recount .. ▸ hp')
    exact ⟨p, hp, id_recount .., (get_recount ..).trans (if_neg fun h => other h.2)⟩

theorem spares_register {info : PeerInfo} (registered : s.register info = .ok s') :
    Spares c s s' := by
  obtain ⟨unknown, config, new, hnew, free, perm⟩ := register_ok registered
  refine ⟨config, fun unique => ?_, fun p' hp' => ?_⟩
  · have hperm := perm.map SyncPeer.id
    rw [List.map_cons, hnew] at hperm
    exact hperm.nodup_iff.mpr (List.nodup_cons.mpr ⟨unknown, unique⟩)
  · rcases List.mem_cons.mp (perm.mem_iff.mp hp') with rfl | hp
    · exact .inl (free c)
    · exact .inr ⟨p', hp, rfl, rfl⟩

end PeerSet

namespace Fetch

variable {σ τ : Type}

theorem Doing.spares {c : Category} {doing : Doing σ} (apart : doing.Spares c) (s : PeerSet) :
    PeerSet.Spares c s (doing.peers s) := by
  have same := PeerSet.Quiet.spares (.refl s) c
  cases doing with
  | register info =>
    simp only [peers]
    split
    · exact PeerSet.spares_register ‹_›
    · exact same
  | unregister id => exact (PeerSet.Quiet.unregister s id).spares c
  | drop id => exact (PeerSet.Quiet.drop s id).spares c
  | blacklist id => exact (PeerSet.Quiet.blacklist s id).spares c
  | updateHead id headHash head totalDifficulty =>
    simp only [peers, PeerSet.updateHead]
    split
    · rename_i updated
      split at updated <;> cases updated
      refine PeerSet.Quiet.spares ?_ c
      exact .modify s id fun _ => ⟨rfl, rfl⟩
    · exact same
  | setForkFilter filter => exact ⟨rfl, fun h => h, same.counters⟩
  | beginRequest id d =>
    simp only [peers]
    split
    · rename_i begun
      obtain ⟨-, -, rfl⟩ := PeerSet.beginRequest_ok begun
      exact PeerSet.spares_modify (Ne.symm apart) id _
    · exact same
  | release slot => exact PeerSet.spares_modify (Ne.symm apart) slot.peer _
  | recordDelivery id d items elapsed => exact (PeerSet.Quiet.recordDelivery ..).spares c
  | recordTimeout id d => exact (PeerSet.Quiet.recordTimeout ..).spares c
  | setEvents events => exact ⟨rfl, fun h => h, same.counters⟩
  | send peer d request => exact same
  | share metrics board heads outbox abandoned => exact same

theorem Doing.peers_hub (doing : Doing σ) (h : Hub σ) :
    (doing.hub h).peers = doing.peers h.peers := by
  cases doing <;> rfl

namespace Watch

variable {c : Category} {w w' : Watch σ τ}

/-- How many requests to a peer have not ended. -/
def held (w : Watch σ τ) (id : PeerId) : Nat := w.underWay.countP (·.call.peer == id)

/-- What is known of the slots of a kind of data that only the run asks for. -/
structure Occupancy [Workload τ] (c : Category) (w : Watch σ τ) : Prop where
  unique : w.hub.peers.ids.Nodup
  room : 0 < w.hub.peers.config.maxInFlightPerPeer.toNat
  counters : ∀ p ∈ w.hub.peers.peers, p.inFlight.get c ≤ w.held p.id
  errands : ∀ e ∈ w.run.errands, e.call.category = c
  task : Workload.category w.run.task = c

variable [Workload τ]

theorem Occupancy.spares (h : w.Occupancy c) (spares : w.hub.peers.Spares c w'.hub.peers)
    (underWay : w'.underWay = w.underWay) (errands : ∀ e ∈ w'.run.errands, e ∈ w.run.errands)
    (task : Workload.category w'.run.task = Workload.category w.run.task) : w'.Occupancy c := by
  refine ⟨spares.unique h.unique, spares.config ▸ h.room, fun p' hp' => ?_,
    fun e he => h.errands e (errands e he), task.trans h.task⟩
  rw [held, underWay]
  rcases spares.counters p' hp' with zero | ⟨p, hp, hid, same⟩
  · rw [zero]
    exact Nat.zero_le _
  · rw [same, hid]
    exact h.counters p hp

section Ends

omit [Workload τ]

theorem underWay_issue {e : Errand} {run : Run τ} (errands : run.errands = w.run.errands ++ [e])
    (fresh : ∀ x ∈ w.arrived, x.1.call.ticket ≠ e.call.ticket) (hub : Hub σ) :
    underWay { w with run, hub } = w.underWay ++ [e] := by
  have new : (!w.arrived.any (·.1.call.ticket == e.call.ticket)) = true := by simpa using fresh
  have last : [e].filter (fun e => !w.arrived.any (·.1.call.ticket == e.call.ticket)) = [e] :=
    List.filter_cons_of_pos new
  simp only [underWay, errands, List.filter_append, last]

theorem underWay_arrive (e : Errand) (ending : Ending) (hub : Hub σ) :
    underWay { w with hub, arrived := w.arrived ++ [(e, ending)] } =
      w.underWay.filter (·.call.ticket != e.call.ticket) := by
  simp only [underWay, List.filter_filter]
  refine List.filter_congr fun e' _ => ?_
  have swap : (e'.call.ticket == e.call.ticket) = (e.call.ticket == e'.call.ticket) := BEq.comm
  simp [List.any_append, bne, Bool.and_comm, swap]

theorem underWay_report {e : Errand} {ending : Ending} {arrived : List (Errand × Ending)}
    (first : w.arrived = (e, ending) :: arrived) {run : Run τ} {hub : Hub σ}
    (errands : run.errands = (settled w.run e.call.ticket).errands)
    (result : Option (Except SyncError Unit)) (reported : List (Call × Ending)) :
    underWay { w with run, hub, result, arrived, reported } = w.underWay := by
  simp only [underWay, errands, settled, List.filter_filter, first]
  refine List.filter_congr fun e' _ => ?_
  have swap : (e'.call.ticket == e.call.ticket) = (e.call.ticket == e'.call.ticket) := BEq.comm
  simp [bne, Bool.and_comm, swap]

end Ends

/-- A request that is made takes a slot. -/
theorem Occupancy.issue (h : w.Occupancy c) {e : Errand} {slot : Slot} {peers : PeerSet}
    (begun : w.hub.peers.beginRequest e.call.peer c = .ok (slot, peers))
    (fresh : ∀ x ∈ w.arrived, x.1.call.ticket ≠ e.call.ticket) (category : e.call.category = c)
    {run : Run τ} {hub : Hub σ} (errands : run.errands = w.run.errands ++ [e])
    (task : Workload.category run.task = c) (same : hub.peers = peers) :
    Occupancy c { w with run, hub } := by
  refine ⟨?_, ?_, fun p' hp' => ?_, fun e' he' => ?_, task⟩
  · rw [same, PeerSet.ids_beginRequest begun]
    exact h.unique
  · rw [same, PeerSet.config_beginRequest begun]
    exact h.room
  · obtain ⟨-, -, rfl⟩ := PeerSet.beginRequest_ok begun
    rw [same] at hp'
    obtain ⟨p, hp, rfl⟩ := List.mem_map.mp (PeerSet.peers_recount .. ▸ hp')
    have now := h.counters p hp
    rw [PeerSet.get_recount, PeerSet.id_recount, held, underWay_issue errands fresh,
      List.countP_append, List.countP_singleton]
    by_cases mine : p.id = e.call.peer
    · rw [if_pos ⟨mine, rfl⟩, if_pos (beq_iff_eq.mpr mine.symm)]
      exact Nat.succ_le_succ now
    · rw [if_neg fun h => mine h.1]
      exact Nat.le_add_right_of_le now
  · rw [errands] at he'
    rcases List.mem_append.mp he' with he' | he'
    · exact h.errands e' he'
    · rwa [List.mem_singleton.mp he']

/-- A request that ends gives its slot back. -/
theorem Occupancy.arrive (h : w.Occupancy c) {e : Errand} (he : e ∈ w.underWay)
    (nodup : (w.run.errands.map (·.call.ticket)).Nodup) (ending : Ending) :
    Occupancy c { w with hub := w.hub.finish e.call, arrived := w.arrived ++ [(e, ending)] } := by
  have kind : e.call.category = c := h.errands e (mem_underWay.mp he).1
  refine ⟨?_, h.room, fun p' hp' => ?_, h.errands, h.task⟩
  · change (w.hub.peers.release e.call.slot).ids.Nodup
    rw [PeerSet.ids_release]
    exact h.unique
  · obtain ⟨p, hp, rfl⟩ := List.mem_map.mp (PeerSet.peers_recount .. ▸ hp')
    have now := h.counters p hp
    have perm : w.underWay.Perm (e :: w.underWay.filter (·.call.ticket != e.call.ticket)) :=
      perm_without (nodup.sublist (List.filter_sublist.map _)) he
    rw [held, perm.countP_eq, List.countP_cons] at now
    rw [PeerSet.get_recount, PeerSet.id_recount, held, underWay_arrive]
    simp only [Call.slot, kind, and_true]
    by_cases mine : p.id = e.call.peer
    · rw [if_pos (beq_iff_eq.mpr mine.symm)] at now
      rw [if_pos mine]
      exact Nat.sub_le_of_le_add now
    · rw [if_neg fun h => mine (beq_iff_eq.mp h).symm] at now
      rwa [if_neg mine]

theorem occupancy_opened {task : τ} (task_eq : Workload.category task = c) {h : Hub σ}
    (unique : h.peers.ids.Nodup) (room : 0 < h.peers.config.maxInFlightPerPeer.toNat)
    (idle : ∀ p ∈ h.peers.peers, p.inFlight.get c = 0) : (opened task h).Occupancy c :=
  ⟨unique, room, fun p hp => (idle p hp).trans_le (Nat.zero_le _), by simp [opened], task_eq⟩

section Steps

variable [Receiver σ τ] [Asking τ] [Accountable σ τ]

theorem occupancy_assign (h : w.Occupancy c) (ledger : w.Ledger) :
    Occupancy c { w with run := (w.run.assign w.hub).1, hub := (w.run.assign w.hub).2 } := by
  -- tickets only grow, so none that ended before is given out again
  refine (Run.assign_induction (P := fun r hub => w.hub.nextTicket ≤ hub.nextTicket ∧
    Occupancy c { w with run := r, hub }) ⟨Nat.le_refl _, h⟩ ?_).2
  rintro r hub live peer ⟨later, occupancy⟩
  rcases r.offer_cases hub live peer with
    ⟨same, -⟩ | ⟨slot, peers, begun, ⟨same, -⟩ | ⟨capacity, a, task, reserved, same⟩⟩
  · rw [same]
    exact ⟨later, occupancy⟩
  · rw [same]
    rw [show Workload.category r.task = c from occupancy.task] at begun
    refine ⟨later, occupancy.spares ⟨?_, fun unique => ?_, fun p' hp' => .inr ?_⟩ rfl
      (fun _ he => he) rfl⟩
    · exact (PeerSet.config_beginRequest begun :)
    · change (peers.release slot).ids.Nodup
      rwa [PeerSet.ids_release, PeerSet.ids_beginRequest begun]
    · exact PeerSet.get_declined begun hp'
  · have makes := Accountable.reserve (σ := σ) reserved
    simp only at same
    rw [same]
    rw [show Workload.category r.task = c from occupancy.task] at begun
    refine ⟨Nat.le_succ_of_le later, occupancy.issue begun (fun x hx => Nat.ne_of_lt ?_)
      occupancy.task rfl (makes.category.trans occupancy.task) rfl⟩
    exact Nat.lt_of_lt_of_le (ledger.below _ (ledger.mem_issued (ledger.arrived x hx))) later

omit [Workload τ] [Receiver σ τ] [Asking τ] [Accountable σ τ] in
theorem judge_peers (h : Hub σ) (e : Errand) (delivery : Delivery) :
    h.peers.Quiet (Run.judge h e delivery).peers := by
  cases delivery with
  | accepted items =>
    unfold Run.judge
    dsimp only
    split
    · exact .recordTimeout ..
    · exact .recordDelivery ..
  | stale items => exact .refl _
  | disputed items reason => exact .refl _
  | rejected accepted dropped reason => exact .drop ..

omit [Asking τ] [Accountable σ τ] in
theorem conclude_peers (r : Run τ) (h : Hub σ) (e : Errand) (ending : Ending) :
    h.peers.Quiet (r.conclude h e ending).2.1.peers := by
  cases ending with
  | answered payload =>
    simp only [Run.conclude]
    generalize Receiver.deliver r.task h.board e.id e.call.peer payload = out
    obtain ⟨task, board, result⟩ := out
    cases result with
    | error err => exact .refl _
    | ok delivery => exact judge_peers { h with board } e delivery
  | failed error => exact .drop ..
  | timedOut => exact .recordTimeout ..

omit [Receiver σ τ] [Asking τ] [Accountable σ τ] in
theorem Occupancy.fail (h : w.Occupancy c) (err : SyncError) : (w.fail err).Occupancy c :=
  h.spares ⟨rfl, fun unique => unique, fun p hp => .inr ⟨p, hp, rfl, rfl⟩⟩ rfl (fun _ he => he) rfl

/-- Whatever happens next, unless others ask for the run's kind of data. -/
theorem occupancy_act (h : w.Occupancy c) (ledger : w.Ledger) {op : Op σ}
    (apart : ∀ doing, op = .beside doing → doing.Spares c) : (w.act op).Occupancy c := by
  have same (s : PeerSet) : s.Spares c s := (PeerSet.Quiet.refl s).spares c
  have told {e : Errand} {ending : Ending} {arrived : List (Errand × Ending)} {run : Run τ}
      {hub : Hub σ} {result : Except SyncError Unit} (first : w.arrived = (e, ending) :: arrived)
      (concluded : (settled w.run e.call.ticket).conclude w.hub e ending = (run, hub, result)) :
      Occupancy c { w with
        run, hub, arrived, reported := w.reported ++ [(e.call, ending)] } := by
    have done := concludes (settled w.run e.call.ticket) w.hub e ending
    have quiet := conclude_peers (settled w.run e.call.ticket) w.hub e ending
    rw [concluded] at done quiet
    exact h.spares (quiet.spares c) (underWay_report first done.errands ..)
      (fun e' he' => List.mem_of_mem_filter (done.errands ▸ he')) done.task.category
  have happens := happens_act w op
  generalize w.act op = next at happens
  cases happens with
  | nothing => exact h
  | left _ result =>
    exact h.spares ⟨rfl, fun unique => unique, (same _).counters⟩ rfl (fun _ he => he) rfl
  | passed waitingSince metrics =>
    exact (occupancy_assign h ledger).spares (same _) rfl (fun _ he => he) rfl
  | ended under => exact h.arrive under ledger.nodup_errands _
  | told first concluded => exact told first concluded
  | refused first concluded => exact (told first concluded).fail _
  | noted event events =>
    have taken : w.hub.peers.Spares c { w.hub.peers with events } :=
      ⟨rfl, fun unique => unique, (same _).counters⟩
    cases event with
    | registered peer => exact h.spares taken rfl (fun _ he => he) rfl
    | unregistered peer =>
      exact h.spares taken rfl (fun _ he => he) (Accountable.failPeer (σ := σ) _ peer).category
    | dropped peer =>
      exact h.spares taken rfl (fun _ he => he) (Accountable.failPeer (σ := σ) _ peer).category
  | waited timely => exact h.spares (same _) rfl (fun _ he => he) rfl
  | aside doing =>
    have spares := Doing.spares (apart doing rfl) w.hub.peers
    rw [← Doing.peers_hub] at spares
    exact h.spares spares rfl (fun _ he => he) rfl

theorem occupancy_play (h : w.Occupancy c) (ledger : w.Ledger) {ops : List (Op σ)}
    (apart : ∀ doing, .beside doing ∈ ops → doing.Spares c) : (w.play ops).Occupancy c :=
  (play_invariant (P := fun w => w.Ledger ∧ w.Occupancy c) ⟨ledger, h⟩
    fun _ _ hop _ ⟨ledger, h⟩ => ⟨ledger_act ledger _, occupancy_act h ledger fun doing heq =>
      apart doing (heq ▸ hop)⟩).2

end Steps

end Watch
end Fetch
end ChainSync
