import ChainSync.Proofs.Fetch.Honest
import ChainSync.Proofs.Fetch.Passes
set_option autoImplicit false

/-!
A peer that tells the truth in time is not lost to a run, whatever others tell it.
-/

namespace ChainSync.Fetch

variable {σ τ : Type} {id : PeerId} {honest : Request → Payload → Prop} {P : τ → Prop}

/-- Others leave the peer alone. -/
def Doing.Keeps (id : PeerId) : Doing σ → Prop
  | .unregister other | .drop other | .blacklist other | .recordTimeout other _ => id ≠ other
  | _ => True

theorem Doing.mem_activeIds {doing : Doing σ} (keeps : doing.Keeps id) {s : PeerSet}
    (active : id ∈ s.activeIds) : id ∈ (doing.peers s).activeIds := by
  cases doing with
  | register info =>
    simp only [peers]
    split
    · rename_i registered
      obtain ⟨p, hp, live, rfl⟩ := PeerSet.mem_activeIds.mp active
      obtain ⟨-, -, new, -, -, perm⟩ := PeerSet.register_ok registered
      exact PeerSet.mem_activeIds.mpr ⟨p, perm.mem_iff.mpr (List.mem_cons_of_mem _ hp), live, rfl⟩
    · exact active
  | unregister other => exact PeerSet.mem_activeIds_unregister keeps active
  | drop other => exact PeerSet.mem_activeIds_drop keeps active
  | blacklist other =>
    let barred : PeerSet := { s with blacklisted := s.blacklisted.insert other }
    exact PeerSet.mem_activeIds_drop (s := barred) keeps active
  | updateHead other headHash head totalDifficulty =>
    simp only [peers, PeerSet.updateHead]
    split
    · rename_i updated
      split at updated <;> cases updated
      have same (p : SyncPeer) :
          let p' := { p with info := { p.info with headHash, head, totalDifficulty } }
          p'.id = p.id ∧ p'.live = p.live := ⟨rfl, rfl⟩
      rwa [PeerSet.activeIds_modify s other same]
    · exact active
  | setForkFilter filter => exact active
  | beginRequest other c =>
    simp only [peers]
    split
    · rename_i begun
      rwa [PeerSet.activeIds_beginRequest begun]
    · exact active
  | release slot =>
    simp only [peers]
    rwa [PeerSet.activeIds_release]
  | recordDelivery other c items elapsed =>
    simp only [peers]
    rwa [PeerSet.activeIds_recordDelivery]
  | recordTimeout other c => exact PeerSet.mem_activeIds_recordTimeout keeps active
  | setEvents events => exact active
  | send peer c request => exact active
  | share metrics board heads outbox abandoned => exact active

/-- Only a verdict against the sender, or one that it sent nothing, can cost it its place. -/
theorem Run.judge_keeps {h : Hub σ} {e : Errand} {delivery : Delivery}
    (clears : e.call.peer = id → delivery.Clears) (active : id ∈ h.peers.activeIds) :
    id ∈ (Run.judge h e delivery).peers.activeIds := by
  have other (blamed : ¬ delivery.Clears) : id ≠ e.call.peer :=
    fun same => blamed (clears same.symm)
  cases delivery with
  | accepted items =>
    unfold judge
    dsimp only
    split
    · rename_i nothing
      refine PeerSet.mem_activeIds_recordTimeout (other fun some => ?_) active
      exact Nat.lt_irrefl 0 (nothing ▸ some :)
    · exact PeerSet.activeIds_recordDelivery h.peers _ _ _ _ ▸ active
  | stale items => exact active
  | disputed items reason => exact active
  | rejected accepted dropped reason =>
    exact PeerSet.mem_activeIds_drop (other fun never => never) active

namespace Watch

/-- The requests that ended so far. -/
def ended (w : Watch σ τ) : List (Call × Ending) :=
  w.reported ++ w.arrived.map fun x => (x.1.call, x.2)

/-- All requests to the peer that ended so far it answered, and honestly. -/
def Upright (id : PeerId) (honest : Request → Payload → Prop) (w : Watch σ τ) : Prop :=
  ∀ x ∈ w.ended, x.1.peer = id → ∃ payload, x.2 = .answered payload ∧ honest x.1.request payload

def Op.Own : Op σ → Prop
  | .beside _ => False
  | _ => True

variable [Workload τ] [Receiver σ τ]

/-- How a run treats a peer that it may trust: nothing that it does takes the peer away, and no
answer is held against it. Once something was taken in of it, it has no timeouts. -/
structure Respects (id : PeerId) (w : Watch σ τ) : Prop where
  kept : ∀ op : Op σ, op.Own → id ∈ w.hub.peers.activeIds → id ∈ (w.apply op).hub.peers.activeIds
  clears : ∀ e payload arrived, w.result = none → w.arrived = (e, .answered payload) :: arrived →
    e.call.peer = id → ∀ delivery,
      (Receiver.deliver w.run.task w.hub.board e.id e.call.peer payload).2.2 = .ok delivery →
        delivery.Clears ∧ ∀ items, delivery = .accepted items →
          ∀ p ∈ (w.apply .report).hub.peers.peers, p.id = id → p.consecutiveTimeouts = 0

section Steps

variable {w : Watch σ τ}

/-- What is told was waiting, and what waits is told later. -/
theorem ended_grows (w : Watch σ τ) (op : Op σ) : w.ended <+: (w.apply op).ended := by
  have moved {e : Errand} {ending : Ending} {arrived : List (Errand × Ending)}
      (first : w.arrived = (e, ending) :: arrived) : w.ended =
        (w.reported ++ [(e.call, ending)]) ++ arrived.map fun x => (x.1.call, x.2) := by
    rw [ended, first, List.map_cons, List.append_assoc, List.singleton_append]
  unfold apply
  split
  · exact List.prefix_refl _
  · have happens := happens_act w op
    generalize w.act op = next at happens
    cases happens with
    | ended under =>
      simp only [ended, List.map_append, ← List.append_assoc]
      exact List.prefix_append ..
    | told first concluded => exact moved first ▸ List.prefix_refl _
    | refused first concluded => exact moved first ▸ List.prefix_refl _
    | _ => exact List.prefix_refl _

variable [Asking τ] [Accountable σ τ]

theorem clears_of_honest (trusting : Trusting σ honest P) (ledger : w.Ledger)
    (kept : P w.run.task) {e : Errand} (he : e ∈ w.run.errands) {payload : Payload}
    (truth : honest e.call.request payload) {delivery : Delivery}
    (took : (Receiver.deliver w.run.task w.hub.board e.id e.call.peer payload).2.2 = .ok delivery) :
    delivery.Clears := by
  cases asks : Asking.asks w.run.task e.id with
  | none =>
    obtain ⟨items, stale⟩ := Accountable.stale w.run.task w.hub.board e.id e.call.peer payload asks
    obtain rfl := Except.ok.inj (took.symm.trans stale)
    trivial
  | some x =>
    obtain rfl := ledger.books.agreed he asks
    exact trusting.clears w.hub.board kept asks truth took

theorem conclude_active (trusting : Trusting σ honest P) (ledger : w.Ledger)
    (kept : P w.run.task) {e : Errand} (he : e ∈ w.run.errands) {ending : Ending}
    (upright : e.call.peer = id → ∃ payload, ending = .answered payload ∧
      honest e.call.request payload) (active : id ∈ w.hub.peers.activeIds) :
    id ∈ ((settled w.run e.call.ticket).conclude w.hub e ending).2.1.peers.activeIds := by
  by_cases asked : e.call.peer = id
  · obtain ⟨payload, rfl, truth⟩ := upright asked
    have clears (delivery : Delivery)
        (took : (Receiver.deliver w.run.task w.hub.board e.id e.call.peer payload).2.2 =
          .ok delivery) : delivery.Clears := clears_of_honest trusting ledger kept he truth took
    simp only [Run.conclude, settled]
    generalize Receiver.deliver w.run.task w.hub.board e.id e.call.peer payload = out at clears ⊢
    obtain ⟨task, board, result⟩ := out
    cases result with
    | error err => exact active
    | ok delivery => exact Run.judge_keeps (fun _ => clears delivery rfl) active
  · cases ending with
    | answered payload =>
      simp only [Run.conclude]
      split
      · exact active
      · exact Run.judge_keeps (fun h => absurd h asked) active
    | failed error => exact PeerSet.mem_activeIds_drop (Ne.symm asked) active
    | timedOut => exact PeerSet.mem_activeIds_recordTimeout (Ne.symm asked) active

/-- The run itself takes no peer away that it may trust. -/
theorem active_act (trusting : Trusting σ honest P) (ledger : w.Ledger)
    (kept : P w.run.task) (upright : w.Upright id honest) {op : Op σ} (own : op.Own)
    (active : id ∈ w.hub.peers.activeIds) : id ∈ (w.act op).hub.peers.activeIds := by
  have concluded {e : Errand} {ending : Ending} {arrived : List (Errand × Ending)}
      (first : w.arrived = (e, ending) :: arrived) :
      id ∈ ((settled w.run e.call.ticket).conclude w.hub e ending).2.1.peers.activeIds := by
    have waiting : (e, ending) ∈ w.arrived := first ▸ List.mem_cons_self ..
    have told : (e.call, ending) ∈ w.ended :=
      List.mem_append_right _ (List.mem_map.mpr ⟨_, waiting, rfl⟩)
    exact conclude_active trusting ledger kept (ledger.arrived _ waiting) (upright _ told) active
  have happens := happens_act w op
  generalize w.act op = next at happens
  cases happens with
  | nothing => exact active
  | left _ result => exact active
  | passed waitingSince metrics => exact Run.activeIds_assign w.run w.hub ▸ active
  | ended under => exact PeerSet.activeIds_release w.hub.peers _ ▸ active
  | told first came =>
    have here := concluded first
    rwa [came] at here
  | refused first came =>
    have here := concluded first
    rw [came] at here
    exact here
  | noted event events => exact active
  | waited timely => exact active
  | aside doing => exact own.elim

omit [Asking τ] [Accountable σ τ] in
/-- Something that was taken in makes the timeouts of its sender be forgotten. -/
theorem timeouts_of_accepted {e : Errand} {payload : Payload} {arrived : List (Errand × Ending)}
    (first : w.arrived = (e, .answered payload) :: arrived) {items : Nat} (some : 0 < items)
    (took : (Receiver.deliver w.run.task w.hub.board e.id e.call.peer payload).2.2 =
      .ok (.accepted items)) :
    ∀ p ∈ (w.act .report).hub.peers.peers, p.id = e.call.peer → p.consecutiveTimeouts = 0 := by
  intro p hp hid
  simp only [act, first, Run.conclude, settled] at hp
  generalize Receiver.deliver w.run.task w.hub.board e.id e.call.peer payload = out at took hp
  obtain ⟨task, board, result⟩ := out
  cases took
  simp only [Run.judge, if_neg (Nat.ne_of_gt some)] at hp
  exact PeerSet.consecutiveTimeouts_recordDelivery hp hid

end Steps

section Runs

variable [Asking τ] [Accountable σ τ] {task : τ} {h : Hub σ}

theorem respects_play (trusting : Trusting σ honest P) (start : P task)
    (unasked : ∀ id, Asking.asks task id = none) {ops : List (Op σ)}
    (upright : ((opened task h).play ops).Upright id honest) :
    ((opened task h).play ops).Respects id := by
  have ledger : ((opened task h).play ops).Ledger := ledger_play (ledger_opened unasked h) ops
  have kept := enduring_play trusting.enduring (w := opened task h) (fun _ => start) ops
  generalize (opened task h).play ops = w at upright ledger kept
  refine ⟨fun op own active => ?_, fun e payload arrived going first asked delivery took => ?_⟩
  · cases going : w.result with
    | none =>
      rw [apply_eq going]
      exact active_act trusting ledger (kept going) upright own active
    | some result =>
      rw [apply, going]
      exact active
  · have waiting : (e, .answered payload) ∈ w.arrived := first ▸ List.mem_cons_self ..
    obtain ⟨_, same, truth⟩ := upright (e.call, .answered payload)
      (List.mem_append_right _ (List.mem_map.mpr ⟨_, waiting, rfl⟩)) asked
    cases same
    have clears := clears_of_honest trusting ledger (kept going) (ledger.arrived _ waiting) truth
      took
    refine ⟨clears, fun items accepted p hp hid => ?_⟩
    rw [accepted] at clears took
    rw [apply_eq going] at hp
    exact timeouts_of_accepted first clears took p hp (hid.trans asked.symm)

/-- A peer that others leave alone is there to the end. -/
theorem active_play (trusting : Trusting σ honest P) (start : P task)
    (unasked : ∀ id, Asking.asks task id = none) {ops : List (Op σ)}
    (upright : ((opened task h).play ops).Upright id honest)
    (keeps : ∀ doing, .beside doing ∈ ops → doing.Keeps id) (active : id ∈ h.peers.activeIds) :
    id ∈ ((opened task h).play ops).hub.peers.activeIds := by
  induction ops using List.reverseRecOn with
  | nil => exact active
  | append_singleton ops op ih =>
    have next : (opened task h).play (ops ++ [op]) = ((opened task h).play ops).apply op :=
      play_append ..
    rw [next] at upright ⊢
    have before : ((opened task h).play ops).Upright id honest :=
      fun x hx => upright x ((ended_grows _ op).subset hx)
    have here := ih before fun doing hmem => keeps doing (List.mem_append_left _ hmem)
    have respects := respects_play trusting start unasked before
    cases op with
    | beside doing =>
      unfold apply
      split
      · exact here
      · have alone := keeps doing (List.mem_append_right _ (List.mem_singleton_self _))
        exact Doing.peers_hub doing _ ▸ Doing.mem_activeIds alone here
    | _ => exact respects.kept _ trivial here

end Runs
end Watch

/-- Whatever happens to a run of this task, the peer is respected as long as it answers honestly,
and if others leave it alone it stays. -/
def Trusted {σ τ : Type} [Workload τ] [Receiver σ τ] (id : PeerId)
    (honest : Request → Payload → Prop) (task : τ) (h : Hub σ) : Prop :=
  ∀ ops : List (Watch.Op σ), let w := (Watch.opened task h).play ops
    w.Upright id honest → w.Respects id ∧
      ((∀ doing, .beside doing ∈ ops → doing.Keeps id) → id ∈ h.peers.activeIds →
        id ∈ w.hub.peers.activeIds)

theorem trusted_of_trusting [Workload τ] [Receiver σ τ] [Asking τ] [Accountable σ τ]
    (trusting : Trusting σ honest P) {task : τ} (start : P task)
    (unasked : ∀ id, Asking.asks task id = none) (id : PeerId) (h : Hub σ) :
    Trusted id honest task h :=
  fun _ upright => ⟨Watch.respects_play trusting start unasked upright,
    Watch.active_play trusting start unasked upright⟩

/-- Whatever peers send and whatever skeleton a master made up, a peer that is there and answers
all requests in time and honestly is never dropped by a run. Its answers are never rejected, and
with each that is accepted its timeouts are forgotten. Nothing that is known may collide: that are
the headers a task was given, and what the peer has and tells of. -/
theorem honest_peer_kept {σ : Type} {engine : Engine} {known : Set Bytes}
    (collisionFree : Set.InjOn keccak known) (id : PeerId) (h : Hub σ) :
    (∀ (session : Nat) (origin : Header) (skeleton : List Header) (master : PeerId) (limit : Nat),
      (∀ g ∈ origin :: skeleton, g.encode ∈ known) →
        Trusted id (Honest engine known)
          (HeaderFill.start session origin skeleton master engine limit) h) ∧
    (∀ (session : Nat) (headers : List Header) (size : Nat), (∀ g ∈ headers, g.encode ∈ known) →
      Trusted id (Honest engine known) (.start session headers size : BlockFetch Body) h) ∧
    (∀ (session : Nat) (headers : List Header) (size : Nat), (∀ g ∈ headers, g.encode ∈ known) →
      Trusted id (Honest engine known)
        (.start session headers size : BlockFetch (List Receipt)) h) ∧
    ∀ [NodeStore σ] (session : Nat) (root : Hash) (store : σ) (commitBatch : Nat)
      (d : StateDownload), StateDownload.start session root store commitBatch = .ok d →
        Trusted id (Honest engine known) d h := by
  refine ⟨?fill, ?bodies, ?receipts, ?state⟩
  case fill =>
    intro session origin skeleton master limit anchored
    exact trusted_of_trusting
      (HeaderFill.trusting_given σ collisionFree session anchored master limit)
      (HeaderFill.given_start session origin skeleton master engine limit) (fun _ => rfl) id h
  case bodies =>
    intro session headers size held
    refine trusted_of_trusting (BlockFetch.trusting_aligned σ collisionFree held ?_)
      ⟨[], BlockFetch.aligned_start session headers size⟩ (fun _ => rfl) id h
    intro hashes payload truth
    cases payload with
    | bodies bodies => exact truth
    | _ => exact truth.elim
  case receipts =>
    intro session headers size held
    refine trusted_of_trusting (BlockFetch.trusting_aligned σ collisionFree held ?_)
      ⟨[], BlockFetch.aligned_start session headers size⟩ (fun _ => rfl) id h
    intro hashes payload truth
    cases payload with
    | receipts receipts => exact truth
    | _ => exact truth.elim
  case state =>
    intro _ session root store commitBatch d opened
    exact trusted_of_trusting (StateDownload.trusting_true σ collisionFree) trivial
      (StateDownload.unasked_start opened) id h

/-- The master made up a header, and the only peer contradicts it. -/
theorem honest_peer_kept_forged_skeleton :
    let forged : Header := { number := 1, timestamp := 2 }
    let next : Header := { number := 1, timestamp := 1, parentHash :=
      0x700f4df9a77094c21ce453225cefb24eadb12af52492e88dbac6851d9c99946e#256 }
    let known : Set Bytes := {({} : Header).encode, forged.encode}
    let info : PeerInfo :=
      { id := 2, version := 68, headHash := 0, head := 0, totalDifficulty := .ofNat 0
        forkId := none, connection := 0 }
    let peer : SyncPeer := ⟨info, .idle, ⟨0, 0, 0, 0⟩, ⟨1, 1, 1, 1⟩, none, 1⟩
    let h : Hub Unit := { peers := { config := {}, peers := [peer] }, board := ⟨{}, ()⟩ }
    let fill : HeaderFill := .start 7 {} [forged] 1 (.ethash 0) 2
    let ops : List (Watch.Op Unit) :=
      [.turn false, .arrive 0 (.answered (.headers [next])), .report, .turn false]
    let w := (Watch.opened fill h).play ops
    w.Upright 2 (Honest (.ethash 0) known) ∧ w.run.task.mismatches = [2] ∧ w.Respects 2 ∧
      2 ∈ w.hub.peers.activeIds := by
  intro forged next known info peer h fill ops w
  have distinct : keccak ({} : Header).encode ≠ keccak forged.encode := by decide +kernel
  have collisionFree : Set.InjOn keccak known :=
    Set.injOn_pair.mpr fun same => absurd same distinct
  obtain ⟨ended, disputed⟩ : w.ended = [(⟨0, 2, 0, .headers, .headers (.range 1 1), 0, 15000⟩,
      .answered (.headers [next]))] ∧ w.run.task.mismatches = [2] := by decide +kernel
  have follows : Engine.verifyHeader (.ethash 0) next {} = .ok () := by decide +kernel
  have upright : w.Upright 2 (Honest (.ethash 0) known) := by
    intro x hx _
    rw [ended, List.mem_singleton] at hx
    subst hx
    exact ⟨_, rfl, {}, .inl rfl, rfl, .cons_cons follows (.singleton _)⟩
  have anchored : ∀ g ∈ [{}, forged], g.encode ∈ known := by
    simp [known]
  obtain ⟨respects, stays⟩ := (honest_peer_kept collisionFree 2 h).1 7 {} [forged] 1 2 anchored ops
    upright
  refine ⟨upright, disputed, respects, stays ?_ (by decide)⟩
  simp [ops]

end ChainSync.Fetch
