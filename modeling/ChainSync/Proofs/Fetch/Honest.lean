import ChainSync.Proofs.Fetch.Working
import ChainSync.Proofs.Headers.Given
import ChainSync.Proofs.Session.Segment
import ChainSync.Proofs.State.Accounts
set_option autoImplicit false

/-!
What tasks make of the answers of a peer that tells the truth. It is never found wrong: where it
contradicts the skeleton of a fill, it is the skeleton that is in doubt.
-/

namespace ChainSync

open Fetch

namespace Fetch

/-- Items for the first of the blocks asked for, as the headers of these commit to them. -/
structure Committed (δ : Type) [BlockData δ] (known : Set Bytes) (blocks : List Hash)
    (items : List δ) : Prop where
  nonempty : items ≠ []
  headers : ∃ headers : List Header, (∀ h ∈ headers, h.encode ∈ known) ∧
    headers.map Header.hash <+: blocks ∧
      List.Forall₂ (fun h item => BlockData.validate h item = .ok ()) headers items

/-- The answers of a peer that tells the truth: all headers that were asked for, of one chain, or
some of the other things. -/
def Honest (engine : Engine) (known : Set Bytes) : Request → Payload → Prop
  | .headers request, .headers headers =>
    ∃ parent : Header, parent.encode ∈ known ∧
      request = .range (parent.height + 1) headers.length ∧
        (parent :: headers).IsChain engine.Follows
  | .bodies blocks, .bodies bodies => Committed Body known blocks bodies
  | .receipts blocks, .receipts receipts => Committed (List Receipt) known blocks receipts
  | .nodes hashes, .nodes nodes =>
    nodes ≠ [] ∧ nodes.Nodup ∧ ∀ node ∈ nodes, node ∈ known ∧ keccak node ∈ hashes
  | _, _ => False

/-- A verdict that holds nothing against the sender. -/
def Delivery.Clears : Delivery → Prop
  | .accepted items => 0 < items
  | .stale _ | .disputed .. => True
  | .rejected .. => False

/-- A task that never finds such answers wrong, as long as it keeps what it keeps. -/
structure Trusting {τ : Type} (σ : Type) [Workload τ] [Receiver σ τ] [Asking τ]
    (honest : Request → Payload → Prop) (P : τ → Prop) : Prop where
  enduring : Enduring σ P
  clears : ∀ {t : τ} (board : Board σ) {id : RequestId} {peer asked : PeerId} {request : Request}
    {payload : Payload} {delivery : Delivery}, P t → Asking.asks t id = some (asked, request) →
      honest request payload → (Receiver.deliver t board id peer payload).2.2 = .ok delivery →
        delivery.Clears

end Fetch

variable {engine : Engine} {known : Set Bytes}

section Headers

variable {range : Range} {parent anchor : Header} {headers : List Header}

/-- Headers of another chain than the anchor's differ from it with the first one. -/
theorem firstFault_of_other (linked : (parent :: headers).IsChain engine.Follows)
    (height : parent.height + 1 = range.start) (fits : headers.length ≤ range.count)
    (other : parent.hash ≠ anchor.hash) {fault : FillFault}
    (found : firstFault engine range range.start anchor headers = some fault) :
    fault.againstSkeleton := by
  cases headers with
  | nil => cases found
  | cons h rest =>
    obtain ⟨hheight, hparent⟩ := (List.isChain_cons_cons.mp linked).1.link
    rw [List.length_cons] at fits
    have inside : ¬ range.start ≥ range.stop := by
      rw [Range.stop]
      omega
    have numbered : ¬ h.height ≠ range.start := by omega
    have unlinked : h.parentHash ≠ anchor.hash := by rwa [hparent]
    rw [firstFault, if_neg inside, if_neg numbered, if_pos ⟨rfl, unlinked⟩] at found
    cases found
    rfl

namespace HeaderFill

theorem fault_of_honest {f : HeaderFill} (same : f.engine = engine)
    (linked : (parent :: headers).IsChain engine.Follows)
    (height : parent.height + 1 = range.start) (whole : headers.length = range.count)
    (bound : parent.hash = anchor.hash → parent = anchor) {fault : FillFault}
    (found : f.fault? range anchor headers = some fault) : fault.againstSkeleton := by
  unfold fault? at found
  rw [same] at found
  split at found
  · rename_i first heq
    cases found
    by_cases meets : parent.hash = anchor.hash
    · obtain rfl := bound meets
      rw [firstFault_of_follows linked height (by rw [whole]; exact Nat.le_refl _)] at heq
      cases heq
    · exact firstFault_of_other linked height (Nat.le_of_eq whole) meets heq
  · split at found
    · cases found
      rfl
    · cases found

/-- Either the skeleton is in doubt, or all of a gap is filled. -/
theorem deliver_clears (collisionFree : Set.InjOn keccak known) {anchors : Positioned Header}
    {master : PeerId} {ranges : List Range} (anchored : ∀ e ∈ anchors, e.2.encode ∈ known)
    (filled : ∀ r ∈ ranges, 0 < r.count) {f : HeaderFill}
    (given : f.Given engine anchors master ranges) {id : RequestId} {peer : PeerId} {r : InFlight}
    {queue : Queue Header} (taken : f.queue.take? id = some (r, queue))
    (held : parent.encode ∈ known) (linked : (parent :: headers).IsChain engine.Follows)
    (height : parent.height + 1 = r.range.start) (whole : headers.length = r.range.count)
    {delivery : Delivery} (took : (f.deliver id peer headers).2 = .ok delivery) :
    delivery.Clears := by
  have positive := filled r.range (given.mem_ranges taken)
  unfold deliver at took
  rw [taken] at took
  dsimp only at took
  split at took
  · cases took
  · rename_i anchor hanchor
    have bound (meets : parent.hash = anchor.hash) : parent = anchor := by
      have anchorHeld := anchored _ (given.anchors_eq ▸ Keyed.mem_of_lookup hanchor)
      exact Header.encode_injective (collisionFree held anchorHeld meets)
    split at took
    · rename_i fault found
      have against : fault.againstSkeleton :=
        fault_of_honest given.engine_eq linked height whole bound found
      rw [if_pos against] at took
      split at took
      · cases took
      · cases took
        trivial
    · rw [if_neg (not_not.mpr whole)] at took
      cases took
      exact whole ▸ positive

theorem trusting_given (σ : Type) (collisionFree : Set.InjOn keccak known) (session : Nat)
    {origin : Header} {skeleton : List Header}
    (anchored : ∀ h ∈ origin :: skeleton, h.encode ∈ known) (master : PeerId) (limit : Nat) :
    Trusting σ (Honest engine known) fun f : HeaderFill =>
      f.Given engine (start session origin skeleton master engine limit).anchors master
        ((gaps origin.height skeleton).filter (·.count > 0)) where
  enduring := (lasting_given σ ..).enduring
  clears {f} board {id peer asked request payload delivery} given asks honest took := by
    obtain ⟨r, hr, heq⟩ := Option.map_eq_some_iff.mp asks
    cases heq
    cases payload with
    | headers headers =>
      obtain ⟨parent, held, request, linked⟩ := honest
      obtain ⟨height, whole⟩ : r.range.start = parent.height + 1 ∧
          r.range.count = headers.length := by
        simpa [HeadersRequest.range] using request
      refine deliver_clears collisionFree (fun e he => anchored _ (mem_anchors_start he))
        (fun r hr => ?_) given (Queue.take?_eq_some.mpr ⟨hr, rfl⟩) held linked height.symm
        whole.symm took
      simpa using (List.mem_filter.mp hr).2
    | bodies bodies => exact honest.elim
    | receipts receipts => exact honest.elim
    | nodes nodes => exact honest.elim

end HeaderFill
end Headers

section Blocks

/-- Known headers are told apart by their hashes. -/
theorem prefix_of_hashes (collisionFree : Set.InjOn keccak known) {xs ys : List Header}
    (hx : ∀ h ∈ xs, h.encode ∈ known) (hy : ∀ h ∈ ys, h.encode ∈ known)
    (initial : xs.map Header.hash <+: ys.map Header.hash) : xs <+: ys := by
  induction xs generalizing ys with
  | nil => exact List.nil_prefix
  | cons x xs ih =>
    cases ys with
    | nil => simp at initial
    | cons y ys =>
      simp only [List.mem_cons, forall_eq_or_imp] at hx hy
      rw [List.map_cons, List.map_cons, List.cons_prefix_cons] at initial
      have same : x = y := Header.encode_injective (collisionFree hx.1 hy.1 initial.1)
      exact List.cons_prefix_cons.mpr ⟨same, ih hx.2 hy.2 initial.2⟩

namespace Fetch.BlockFetch

variable {δ : Type} [BlockData δ] {f : BlockFetch δ} {headers : List Header}
  {kept : Positioned (δ × PeerId)}

/-- Items that fit the headers at their positions are all kept. -/
theorem accept_of_valid {range : Range} {position : Nat} {wanted : List Header} {items : List δ}
    (valid : List.Forall₂ (fun h item => BlockData.validate h item = .ok ()) wanted items)
    (stand : ∀ i h, wanted[i]? = some h →
      position + i < range.stop ∧ f.headerAt? (position + i) = some h) :
    f.accept range position items = (items, none) := by
  induction valid generalizing position with
  | nil => rfl
  | @cons h item wanted items fits _ ih =>
    obtain ⟨inside, first⟩ := stand 0 h rfl
    have rest : f.accept range (position + 1) items = (items, none) := by
      refine ih fun i g hg => ?_
      rw [Nat.add_assoc, Nat.add_comm 1 i]
      exact stand (i + 1) g hg
    rw [Nat.add_zero] at inside first
    simp only [accept, if_pos inside, first, fits, rest]

theorem Aligned.headerAt_of_lt (h : Aligned headers kept f) {p : Nat} (hp : p < f.wanted.length) :
    ∃ g ∈ headers, f.headerAt? p = some g := by
  obtain ⟨stored, placed, -, -⟩ := h.placed
  have asked := List.getElem?_eq_getElem hp
  obtain ⟨g, found⟩ : ∃ g, f.headers[f.wanted[p]]? = some g :=
    ⟨_, List.getElem?_eq_getElem (placed.index_lt (List.mem_of_getElem? asked))⟩
  refine ⟨g, h.headers_eq ▸ List.mem_of_getElem? found, ?_⟩
  rw [headerAt?, asked]
  exact found

/-- What is asked for are the hashes of the headers at the positions, all of which are there. -/
theorem Aligned.headers_at (h : Aligned headers kept f) (positions : List Nat)
    (inside : ∀ p ∈ positions, p < f.wanted.length) :
    ∃ found : List Header, (∀ g ∈ found, g ∈ headers) ∧ positions.map f.headerAt? = found.map some ∧
      positions.filterMap (fun p => (f.headerAt? p).map Header.hash) = found.map Header.hash := by
  induction positions with
  | nil => exact ⟨[], by simp, rfl, rfl⟩
  | cons p rest ih =>
    simp only [List.mem_cons, forall_eq_or_imp] at inside
    obtain ⟨g, hg, first⟩ := h.headerAt_of_lt inside.1
    obtain ⟨gs, hgs, stand, hashes⟩ := ih inside.2
    refine ⟨g :: gs, List.forall_mem_cons.mpr ⟨hg, hgs⟩, ?_, ?_⟩
    · rw [List.map_cons, List.map_cons, first, stand]
    · rw [List.filterMap_cons, first, Option.map_some, hashes, List.map_cons]

theorem accept_of_committed (collisionFree : Set.InjOn keccak known)
    (held : ∀ h ∈ headers, h.encode ∈ known) (h : Aligned headers kept f) {range : Range}
    (within : range.stop ≤ f.wanted.length) {items : List δ}
    (committed : Committed δ known
      (range.positions.filterMap fun p => (f.headerAt? p).map Header.hash) items) :
    f.accept range range.start items = (items, none) := by
  obtain ⟨wanted, heldWanted, initial, valid⟩ := committed.headers
  obtain ⟨found, among, stand, hashes⟩ := h.headers_at range.positions
    fun p hp => by
      have := (List.mem_range'_1.mp hp).2
      rw [Range.stop] at within
      omega
  rw [hashes] at initial
  obtain ⟨rest, rfl⟩ :=
    prefix_of_hashes collisionFree heldWanted (fun g hg => held g (among g hg)) initial
  refine accept_of_valid valid fun i g hg => ?_
  have shorter := (List.getElem?_eq_some_iff.mp hg).1
  have counts := congrArg List.length stand
  simp only [List.length_map, List.length_append, Range.positions, List.length_range'] at counts
  have inside : i < range.count := by omega
  refine ⟨Nat.add_lt_add_left inside _, ?_⟩
  have here : (range.positions.map f.headerAt?)[i]? = ((wanted ++ rest).map some)[i]? := by
    rw [stand]
  rw [List.getElem?_map, List.getElem?_map, List.getElem?_append_left shorter, hg,
    Range.positions, List.getElem?_range' inside] at here
  simpa using here

theorem trusting_aligned (σ : Type) [LawfulBlockData δ] (collisionFree : Set.InjOn keccak known)
    (held : ∀ h ∈ headers, h.encode ∈ known)
    (serves : ∀ {hashes : List Hash} {payload : Payload},
      Honest engine known (BlockData.request δ hashes) payload →
        Committed δ known hashes (BlockData.ofPayload payload)) :
    Trusting σ (Honest engine known) fun f : BlockFetch δ => ∃ kept, Aligned headers kept f where
  enduring := (lasting_aligned σ headers).enduring
  clears {f} board {id peer asked request payload delivery} h asks honest took := by
    obtain ⟨kept, aligned⟩ := h
    obtain ⟨r, hr, heq⟩ := Option.map_eq_some_iff.mp asks
    cases heq
    obtain ⟨taken, balanced⟩ := aligned.custody
    have within : r.range.stop ≤ f.wanted.length :=
      balanced.lots_within (Bench.mem_lots.mpr
        (.inr ⟨(id, r), List.mem_append_left _ (Keyed.mem_of_lookup hr), rfl⟩))
    have committed := serves honest
    have accepted := accept_of_committed collisionFree held aligned within committed
    have queued : f.queue.take? id = some (r, _) := Queue.take?_eq_some.mpr ⟨hr, rfl⟩
    simp only [Receiver.deliver, deliver, queued, accepted] at took
    cases took
    exact List.length_pos_of_ne_nil committed.nonempty

end Fetch.BlockFetch
end Blocks

namespace StateDownload

variable {σ : Type} [NodeStore σ]

/-- Nodes that were asked for are taken in, if the store does. -/
theorem takeIn_counts {d d' : StateDownload} {store store' : σ} {outstanding left : List Hash}
    {accepted unrequested a u : Nat} {nodes : List Bytes}
    (asked : ∀ n ∈ nodes, keccak n ∈ outstanding) (distinct : (nodes.map keccak).Nodup)
    (took : d.takeIn store outstanding accepted unrequested nodes =
      (d', store', .ok (left, a, u))) :
    a = accepted + nodes.length ∧ u = unrequested := by
  induction nodes generalizing d store outstanding accepted with
  | nil =>
    cases took
    exact ⟨rfl, rfl⟩
  | cons n rest ih =>
    simp only [List.mem_cons, forall_eq_or_imp] at asked
    obtain ⟨other, distinct⟩ := List.nodup_cons.mp distinct
    have wanted : outstanding.contains (keccak n) := List.contains_iff_mem.mpr asked.1
    simp only [takeIn, if_pos wanted] at took
    split at took
    · cases took
    · have left : ∀ m ∈ rest, keccak m ∈ outstanding.filter (· != keccak n) := by
        intro m hm
        have differs : keccak m ≠ keccak n := fun h => other (h ▸ List.mem_map_of_mem hm)
        exact List.mem_filter.mpr ⟨asked.2 m hm, bne_iff_ne.mpr differs⟩
      obtain ⟨rfl, rfl⟩ := ih left distinct took
      exact ⟨by rw [List.length_cons]; omega, rfl⟩

theorem trusting_true (σ : Type) [NodeStore σ] (collisionFree : Set.InjOn keccak known) :
    Trusting σ (Honest engine known) fun _ : StateDownload => True where
  enduring := (lasting_true σ).enduring
  clears {d} board {id peer asked request payload delivery} _ asks honest took := by
    obtain ⟨x, hx, heq⟩ := Option.map_eq_some_iff.mp asks
    cases heq
    cases payload with
    | nodes nodes =>
      obtain ⟨nonempty, distinct, asked⟩ := honest
      have apart : (nodes.map keccak).Nodup :=
        distinct.map_on fun n hn m hm => collisionFree (asked n hn).1 (asked m hm).1
      change (d.deliver board.store id peer nodes).2.2 = .ok delivery at took
      simp only [deliver, hx] at took
      split at took
      · cases took
      · rename_i heq
        obtain ⟨rfl, rfl⟩ := takeIn_counts (fun n hn => (asked n hn).2) apart heq
        cases took
        rw [if_neg (Nat.lt_irrefl 0)]
        exact Nat.lt_add_left 0 (List.length_pos_of_ne_nil nonempty)
    | headers headers => exact honest.elim
    | bodies bodies => exact honest.elim
    | receipts receipts => exact honest.elim

end StateDownload

end ChainSync
