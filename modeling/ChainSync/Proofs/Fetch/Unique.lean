import ChainSync.Proofs.Block.Commitments
import ChainSync.Proofs.Fetch.BlockData
import ChainSync.Proofs.Headers.Fill
set_option autoImplicit false

/-!
What is fetched does not depend on who sends it and when: headers are fixed by the anchors of their
skeleton, and what a block holds by its header.
-/

namespace ChainSync

open Fetch

/-- Headers that are linked up to the same last one are the same. -/
theorem Header.eq_of_linked {known : Set Bytes} (collisionFree : Set.InjOn keccak known)
    {xs ys : List Header} (hx : ∀ h ∈ xs, h.encode ∈ known) (hy : ∀ h ∈ ys, h.encode ∈ known)
    (linkedX : xs.IsChain fun parent h => h.parentHash = parent.hash)
    (linkedY : ys.IsChain fun parent h => h.parentHash = parent.hash)
    (hlen : xs.length = ys.length)
    (hlast : xs.getLast?.map Header.hash = ys.getLast?.map Header.hash) : xs = ys := by
  induction xs generalizing ys with
  | nil => exact (List.length_eq_zero_iff.mp hlen.symm).symm
  | cons x xs ih =>
    cases ys with
    | nil => simp at hlen
    | cons y ys =>
      have same : x.hash = y.hash → x = y := fun heq =>
        Header.encode_injective
          (collisionFree (hx x (List.mem_cons_self ..)) (hy y (List.mem_cons_self ..)) heq)
      cases xs with
      | nil =>
        obtain rfl := List.length_eq_zero_iff.mp (Nat.succ.inj hlen).symm
        rw [same (by simpa using hlast)]
      | cons x' xs =>
        cases ys with
        | nil => simp at hlen
        | cons y' ys =>
          rw [List.isChain_cons_cons] at linkedX linkedY
          rw [List.getLast?_cons_cons, List.getLast?_cons_cons] at hlast
          have hrest := ih (fun h hh => hx h (List.mem_cons_of_mem _ hh))
            (fun h hh => hy h (List.mem_cons_of_mem _ hh)) linkedX.2 linkedY.2
            (Nat.succ.inj hlen) hlast
          -- the next header is the same, so its parent hash binds this one
          obtain ⟨rfl, rfl⟩ := List.cons.inj hrest
          rw [same (linkedX.1.symm.trans linkedY.1)]

namespace HeaderFill

variable {origin : Header} {skeleton sent : List Header} {engine : Engine} {start stop : Nat}
  {f : HeaderFill}

theorem Filling.released_eq {engine' : Engine} {sent' : List Header} {f' : HeaderFill}
    (ascending : (origin :: skeleton).Pairwise (·.height < ·.height))
    (h : Filling engine origin skeleton sent (origin.height + 1)
      ((skeleton.getLastD origin).height + 1) f)
    (h' : Filling engine' origin skeleton sent' (origin.height + 1)
      ((skeleton.getLastD origin).height + 1) f')
    (done : f.isDone) (done' : f'.isDone)
    (collisionFree : Set.InjOn keccak (Header.encode '' {g | g ∈ sent ∨ g ∈ sent'})) :
    f.released = f'.released := by
  have hle := (tiles_gaps ascending).le
  have hlen := h.length_of_done hle done
  have hlen' := h'.length_of_done hle done'
  refine Header.eq_of_linked collisionFree
    (fun g hg => ⟨g, .inl (h.backed.sent_of_released hg), rfl⟩)
    (fun g hg => ⟨g, .inr (h'.backed.sent_of_released hg), rfl⟩)
    (h.backed.hash_chain ascending h.nodup).tail (h'.backed.hash_chain ascending h'.nodup).tail
    (by omega) ?_
  cases hs : skeleton.getLast? with
  | none =>
    obtain rfl := List.getLast?_eq_none_iff.mp hs
    rw [h.released_eq_nil, h'.released_eq_nil]
  | some last =>
    have hlast := List.mem_of_getLast? hs
    obtain ⟨g, hg, hheight⟩ := h.last_of_done ascending done hs
    obtain ⟨g', hg', hheight'⟩ := h'.last_of_done ascending done' hs
    rw [hg, hg', Option.map_some, Option.map_some,
      h.backed.hash_eq (List.mem_of_getLast? hg) hlast hheight,
      h'.backed.hash_eq (List.mem_of_getLast? hg') hlast hheight']

section Run

variable {σ : Type} {session session' : Nat} {master master' : PeerId} {engine' : Engine}
  {limit limit' : Nat} {d d' : Desk σ HeaderFill} {moves moves' : List Move}

theorem released_eq_nil_of_run (opened : d.task = .start session origin [] master engine limit)
    (moves : List Move) : (d.run moves).task.released = [] := by
  have h : Filling engine origin [] (receivedHeaders moves) 0 0 (d.run moves).task :=
    filling_run (List.pairwise_singleton ..)
      (opened ▸ filling_start (List.pairwise_singleton ..) session master limit rfl fun _ => rfl)
  exact h.released_eq_nil

theorem released_eq_of_done (sorted : (origin :: skeleton).Pairwise (·.height ≤ ·.height))
    (opened : d.task = .start session origin skeleton master engine limit)
    (opened' : d'.task = .start session' origin skeleton master' engine' limit')
    (collisionFree : Set.InjOn keccak
      (Header.encode '' {h | h ∈ receivedHeaders moves ∨ h ∈ receivedHeaders moves'}))
    (done : (d.run moves).task.isDone) (done' : (d'.run moves').task.isDone) :
    (d.run moves).task.released = (d'.run moves').task.released := by
  cases skeleton with
  | nil => rw [released_eq_nil_of_run opened, released_eq_nil_of_run opened']
  | cons s rest =>
    have ascending := settle_ascending sorted
    have hfirst := settle_height origin (s :: rest)
    have hlast := settle_last origin (s :: rest)
    have tiles := tiles_gaps_of_le sorted
    have nonempty : gaps origin.height (s :: rest) = [] → origin.height + 1 = 0 := by simp [gaps]
    have h : Filling engine (settle origin (s :: rest)).1 (settle origin (s :: rest)).2
        (receivedHeaders moves) (origin.height + 1) (((s :: rest).getLastD origin).height + 1)
        (d.run moves).task :=
      filling_run ascending (opened ▸
        filling_start_settled sorted session master limit tiles nonempty)
    have h' : Filling engine' (settle origin (s :: rest)).1 (settle origin (s :: rest)).2
        (receivedHeaders moves') (origin.height + 1) (((s :: rest).getLastD origin).height + 1)
        (d'.run moves').task :=
      filling_run ascending (opened' ▸
        filling_start_settled sorted session' master' limit' tiles nonempty)
    rw [← hfirst, ← hlast] at h h'
    exact h.released_eq ascending h' done done' collisionFree

end Run
end HeaderFill

/-- What peers sent of one kind, right or wrong, asked for or not. -/
def Fetch.receivedItems (δ : Type) [BlockData δ] (moves : List Move) : List δ :=
  (received moves).flatMap BlockData.ofPayload

namespace Fetch.BlockFetch

variable {δ : Type} [BlockData δ] {σ : Type}

theorem Brought.mem_receivedItems {d : Desk σ (BlockFetch δ)} {moves : List Move}
    {e : Nat × δ × PeerId} (h : Brought d moves e) : e.2.1 ∈ receivedItems δ moves := by
  obtain ⟨earlier, id, payload, later, r, rfl, -, -, hget⟩ := h
  refine List.mem_flatMap.mpr ⟨payload, ?_, List.mem_of_getElem? hget⟩
  simp [received, Move.payload?]

/-- Data that is bound by headers is the same in all fetches that are done. -/
theorem output_eq_of_whole {headers : List Header} {before before' : SyncProgress}
    {d d' : Desk σ (BlockFetch δ)} {moves moves' : List Move}
    (binding : ∀ (h : Header) (a b : δ), a ∈ receivedItems δ moves → b ∈ receivedItems δ moves' →
      BlockData.validate h a = .ok () → BlockData.validate h b = .ok () → a = b)
    (whole : Whole headers before d moves) (whole' : Whole headers before' d' moves') :
    (d.run moves).task.output = (d'.run moves').task.output := by
  refine List.ext_getElem? fun i => ?_
  cases hi : headers[i]? with
  | none =>
    have hle := List.getElem?_eq_none_iff.mp hi
    rw [List.getElem?_eq_none (whole.length_output ▸ hle),
      List.getElem?_eq_none (whole'.length_output ▸ hle)]
  | some header =>
    cases he : BlockData.committedEmpty δ header with
    | true => rw [(whole.empty i header hi he).1, (whole'.empty i header hi he).1]
    | false =>
      obtain ⟨p, a, peer, -, -, sent, out, -⟩ := whole.asked i header hi he
      obtain ⟨p', b, peer', -, -, sent', out', -⟩ := whole'.asked i header hi he
      obtain ⟨x, hx, valid⟩ := whole.valid i header hi
      obtain ⟨y, hy, valid'⟩ := whole'.valid i header hi
      obtain rfl := Option.some.inj (out.symm.trans hx)
      obtain rfl := Option.some.inj (out'.symm.trans hy)
      rw [out, out', binding header a b sent.mem_receivedItems sent'.mem_receivedItems valid valid']

end Fetch.BlockFetch

/-- Two fetches of the same that both come to an end have the same to show, whatever each of them
was sent by whom and when, as long as no two things that were sent collide. The heights of a
skeleton do not fall, or its gaps would have no widths, and what was sent fits in memory. -/
theorem Fetch.outcome_independent_of_schedule {σ : Type} (moves moves' : List Move) :
    (∀ (origin : Header) (skeleton : List Header) (session session' : Nat)
      (master master' : PeerId) (engine engine' : Engine) (limit limit' : Nat)
      (d d' : Desk σ HeaderFill), (origin :: skeleton).Pairwise (·.height ≤ ·.height) →
      d.task = .start session origin skeleton master engine limit →
      d'.task = .start session' origin skeleton master' engine' limit' →
      Set.InjOn keccak
        (Header.encode '' {h | h ∈ receivedHeaders moves ∨ h ∈ receivedHeaders moves'}) →
      (d.run moves).task.isDone → (d'.run moves').task.isDone →
      (d.run moves).task.released = (d'.run moves').task.released) ∧
    (∀ (headers : List Header) (session session' size size' : Nat)
      (before before' : SyncProgress) (store store' : σ),
      let d := BlockFetch.opening Body session size headers before store
      let d' := BlockFetch.opening Body session' size' headers before' store'
      Set.InjOn keccak {e | ∃ b, (b ∈ receivedItems Body moves ∨ b ∈ receivedItems Body moves') ∧
        e ∈ b.encodings} →
      (∀ b ∈ receivedItems Body moves, ∀ e ∈ b.encodings, e.length < 2 ^ 64) →
      (d.run moves).task.isDone → (d'.run moves').task.isDone →
      (d.run moves).task.output = (d'.run moves').task.output) ∧
    ∀ (headers : List Header) (session session' size size' : Nat)
      (before before' : SyncProgress) (store store' : σ),
      let d := BlockFetch.opening (List Receipt) session size headers before store
      let d' := BlockFetch.opening (List Receipt) session' size' headers before' store'
      Set.InjOn keccak ((fun receipts => Rlp.list (receipts.map Receipt.encode)) ''
        {r | r ∈ receivedItems (List Receipt) moves ∨ r ∈ receivedItems (List Receipt) moves'}) →
      (∀ r ∈ receivedItems (List Receipt) moves,
        (Rlp.list (r.map Receipt.encode)).length < 2 ^ 64) →
      (d.run moves).task.isDone → (d'.run moves').task.isDone →
      (d.run moves).task.output = (d'.run moves').task.output := by
  refine ⟨?fill, ?bodies, ?receipts⟩
  case fill =>
    intro origin skeleton session session' master master' engine engine' limit limit' d d' sorted
      opened opened' collisionFree done done'
    exact HeaderFill.released_eq_of_done sorted opened opened' collisionFree done done'
  case bodies =>
    intro headers session session' size size' before before' store store' d d' collisionFree small
      done done'
    refine BlockFetch.output_eq_of_whole (fun h a b ha hb => ?_)
      (BlockFetch.whole_of_done session size headers before store moves done)
      (BlockFetch.whole_of_done session' size' headers before' store' moves' done')
    exact Body.eq_of_check collisionFree (fun e he => ⟨⟨a, .inl ha, he⟩, small a ha e he⟩)
      fun e he => ⟨b, .inr hb, he⟩
  case receipts =>
    intro headers session session' size size' before before' store store' d d' collisionFree small
      done done'
    refine BlockFetch.output_eq_of_whole (fun h a b ha hb => ?_)
      (BlockFetch.whole_of_done session size headers before store moves done)
      (BlockFetch.whole_of_done session' size' headers before' store' moves' done')
    exact receipts_eq_of_check collisionFree ⟨a, .inl ha, rfl⟩ (small a ha) ⟨b, .inr hb, rfl⟩

theorem Fetch.outcome_independent_of_schedule_forged_body :
    let body : Body := ⟨[[1]], []⟩
    let headers : List Header := [{}, { number := 1, transactionsRoot := body.transactionsRoot }]
    let moves : List Move := [.reserve 1 8 [1, 2], .deliver ⟨7, 0⟩ 1 (.bodies [⟨[[2]], []⟩]),
      .reserve 2 8 [1, 2], .deliver ⟨7, 1⟩ 2 (.bodies [body, body])]
    let moves' : List Move := [.reserve 3 1 [3], .failPeer 3, .reserve 4 1 [3, 4],
      .deliver ⟨8, 1⟩ 4 (.bodies [body])]
    let d := BlockFetch.opening Body 7 4 headers {} ()
    let d' := BlockFetch.opening Body 8 1 headers {} ()
    (d.run moves).task.isDone = true ∧ (d'.run moves').task.isDone = true ∧
      (d.run moves).task.output = (d'.run moves').task.output := by
  intro body headers moves moves' d d'
  have done : (d.run moves).task.isDone = true := by decide +kernel
  have done' : (d'.run moves').task.isDone = true := by decide +kernel
  have sent : ∀ b ∈ receivedItems Body moves ++ receivedItems Body moves',
      ∀ e ∈ b.encodings, e ∈ [[0xc1, 1], [0xc0], [0xc1, 2]] := by decide +kernel
  have distinct : ∀ e ∈ ([[0xc1, 1], [0xc0], [0xc1, 2]] : List Bytes),
      ∀ e' ∈ ([[0xc1, 1], [0xc0], [0xc1, 2]] : List Bytes), keccak e = keccak e' → e = e' := by
    decide +kernel
  have small : ∀ b ∈ receivedItems Body moves, ∀ e ∈ b.encodings, e.length < 2 ^ 64 := by
    decide +kernel
  have collisionFree : Set.InjOn keccak {e | ∃ b, (b ∈ receivedItems Body moves ∨
      b ∈ receivedItems Body moves') ∧ e ∈ b.encodings} := by
    rintro e ⟨b, hb, he⟩ e' ⟨b', hb', he'⟩ heq
    exact distinct e (sent b (List.mem_append.mpr hb) e he) e'
      (sent b' (List.mem_append.mpr hb') e' he') heq
  have same := (outcome_independent_of_schedule moves moves').2.1 headers 7 8 4 1 {} {} () ()
    collisionFree small done done'
  exact ⟨done, done', same⟩

end ChainSync
