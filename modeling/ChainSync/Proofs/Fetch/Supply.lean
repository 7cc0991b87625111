import ChainSync.Proofs.Fetch.Books
import ChainSync.Proofs.Fetch.Judgement
set_option autoImplicit false

/-!
Who the data of a block is from. A run takes in what it is sent, and what it keeps of an answer is
what the sender was asked for.
-/

namespace ChainSync.Fetch

variable {σ : Type} {δ : Type} [BlockData δ]

/-- The empty value fits only headers that commit to it. -/
class Discerning (δ : Type) [BlockData δ] : Prop where
  committed {h : Header} : BlockData.validate h (BlockData.empty : δ) = .ok () →
    BlockData.committedEmpty δ h

instance : Discerning Body where
  committed {h} valid := by
    obtain ⟨transactions, ommers⟩ := Header.checkBody_eq_ok.mp valid
    simp only [BlockData.committedEmpty, Header.hasEmptyBody, Bool.and_eq_true, beq_iff_eq]
    exact ⟨transactions.symm.trans keccak_empty_list, ommers.symm.trans keccak_empty_list⟩

instance : Discerning (List Receipt) where
  committed {h} valid := by
    simp only [BlockData.committedEmpty, Header.hasEmptyReceipts, beq_iff_eq]
    exact (Header.checkReceipts_eq_ok.mp valid).symm.trans keccak_empty_list

/-- An answer that a run was told of, and what it kept of it, by positions of the queue. -/
structure Intake (δ : Type) where
  call : Call
  answer : List δ
  kept : Positioned (δ × PeerId)

/-- What a run takes in at a signal. -/
def Run.intake (r : Run (BlockFetch δ)) (signal : Signal) : List (Intake δ) :=
  match r.told? signal with
  | some (e, .answered payload) =>
    [⟨e.call, BlockData.ofPayload payload,
      r.task.keeps e.id e.call.peer (BlockData.ofPayload payload)⟩]
  | _ => []

namespace Intake

/-- At one place the request had the hash of a block and the answer the item. -/
def Carries (x : Intake δ) (header : Header) (item : δ) : Prop :=
  ∃ (k : Nat) (hashes : List Hash), x.call.request = BlockData.request δ hashes ∧
    hashes[k]? = some header.hash ∧ x.answer[k]? = some item

/-- The answer is where a block has its item from: it carried the item, and that was kept. -/
def Brings (headers : List Header) (x : Intake δ) (i : Nat) (item : δ) : Prop :=
  ∃ p header, (BlockFetch.wantedFrom δ 0 headers)[p]? = some i ∧ headers[i]? = some header ∧
    x.Carries header item ∧ (p, item, x.call.peer) ∈ x.kept

/-- Whom an item is put down to: the only one who brought it, or nobody if it is empty. -/
inductive Credit (headers : List Header) (log : List (Intake δ)) (i : Nat) :
    δ → Option PeerId → Prop where
  | sender {item : δ} {x : Intake δ} (carried : item ≠ BlockData.empty) (sent : x ∈ log)
      (brings : x.Brings headers i item)
      (alone : ∀ y ∈ log, ∀ item', y.Brings headers i item' → y.call.peer = x.call.peer) :
    Credit headers log i item (some x.call.peer)
  | nobody : Credit headers log i BlockData.empty none

/-- All that was kept is from the sender, who was asked for it. -/
def Right (headers : List Header) (x : Intake δ) : Prop :=
  ∀ p item peer, (p, item, peer) ∈ x.kept → peer = x.call.peer ∧
    ∃ header, (BlockFetch.sought δ headers)[p]? = some header ∧ x.Carries header item

end Intake

namespace BlockFetch

/-- All that a fetch has is kept of answers to its requests. -/
structure Supplied (headers : List Header) (log : List (Intake δ)) (f : BlockFetch δ) : Prop where
  aligned : Aligned headers (log.flatMap (·.kept)) f
  right : ∀ x ∈ log, x.Right headers

variable {headers : List Header} {log : List (Intake δ)} {f : BlockFetch δ}

theorem supplied_start (session : Nat) (headers : List Header) (size : Nat) :
    Supplied headers [] (start session headers size : BlockFetch δ) :=
  ⟨aligned_start session headers size, by simp⟩

variable (σ) in
theorem conduct_supplied (headers : List Header) (log : List (Intake δ)) :
    Run.Conduct fun (r : Run (BlockFetch δ)) (_ : Hub σ) => Supplied headers log r.task where
  offer {r h} live peer supplied := by
    rcases r.offer_cases h live peer with
      ⟨same, -⟩ | ⟨slot, peers, -, ⟨same, -⟩ | ⟨capacity, a, task, reserved, same⟩⟩ <;> rw [same]
    · exact supplied
    · exact supplied
    · exact ⟨aligned_reserve supplied.aligned reserved, supplied.right⟩
  awaitPeers {r h} supplied := by
    obtain ⟨since, throttle, same⟩ := r.awaitPeers_eq h
    rw [same]
    exact supplied
  noteEvent event events supplied := by
    cases event with
    | registered peer => exact supplied
    | unregistered peer | dropped peer =>
      exact ⟨aligned_failPeer supplied.aligned peer, supplied.right⟩
  leave supplied := supplied

/-- What is kept of the answer to a request is right. -/
theorem Aligned.right_keeps {kept : Positioned (δ × PeerId)} (h : Aligned headers kept f)
    {call : Call} {id : RequestId}
    (asked : ∀ r, f.queue.inFlight.lookup id = some r → call.request = f.requestFor r.range)
    (answer : List δ) : Intake.Right headers ⟨call, answer, f.keeps id call.peer answer⟩ := by
  intro p item peer found
  simp only [keeps] at found
  cases waiting : f.queue.inFlight.lookup id with
  | none => simp [waiting] at found
  | some r =>
    have fits := f.accept_length (Nat.le_add_right r.range.start r.range.count) answer
    have valid := f.accept_valid r.range r.range.start answer
    obtain ⟨rest, whole⟩ := f.accept_prefix r.range r.range.start answer
    simp only [waiting, Positioned.numbered_map] at found
    obtain ⟨x, hx, heq⟩ := List.mem_map.mp found
    cases heq
    obtain ⟨header, stands, -⟩ := valid x hx
    obtain ⟨behind, taken⟩ := Positioned.mem_numbered.mp hx
    have inside := (List.getElem?_eq_some_iff.mp taken).1
    have short : x.1 - r.range.start < r.range.count := by
      rw [Range.stop] at fits
      omega
    rw [h.headerAt?_eq] at stands
    refine ⟨rfl, header, stands, x.1 - r.range.start, _,
      (asked r waiting).trans (h.requestFor_eq r.range), ?_, ?_⟩
    · rw [List.getElem?_map, askedIn, List.getElem?_take_of_lt short, List.getElem?_drop,
        Nat.add_sub_cancel' behind, stands]
      rfl
    · rw [← whole, List.getElem?_append_left inside, taken]

/-- What comes of a signal, with what it brought added to the rest. -/
theorem supplied_step {r : Run (BlockFetch δ)} {h : Hub σ} (supplied : Supplied headers log r.task)
    (books : r.Books h.nextTicket) (cancelled : Bool) (signal : Signal) :
    Run.Reached (fun r' (h' : Hub σ) =>
        Supplied headers (log ++ r.intake signal) r'.task ∧ r'.Books h'.nextTicket)
      (r.step h cancelled signal) := by
  refine Run.step_reached ((conduct_supplied σ headers _).and (Run.conduct_books σ _)) cancelled
    signal (fun quiet => ?_) fun e ending told => ?_
  · rw [Run.intake, quiet, List.append_nil]
    exact ⟨supplied, books⟩
  · have he := Run.mem_of_told? told
    have concluded := Watch.concludes (Watch.settled r e.call.ticket) (h.finish e.call) e ending
    refine ⟨?_, concluded.next ▸ books.settle he concluded.errands concluded.task concluded.gone⟩
    cases ending with
    | answered payload =>
      have agreed (x : InFlight) (waiting : r.task.queue.inFlight.lookup e.id = some x) :
          e.call.request = r.task.requestFor x.range := by
        have asked : Asking.asks r.task e.id = some (x.peer, r.task.requestFor x.range) := by
          simp [Asking.asks, Queue.asks, waiting]
        exact (congrArg Prod.snd (books.agreed he asked)).symm
      have right := supplied.aligned.right_keeps agreed (BlockData.ofPayload payload)
      simp only [Run.intake, told]
      refine ⟨?_, fun x hx => ?_⟩
      · rw [List.flatMap_append, List.flatMap_singleton]
        exact (aligned_deliver supplied.aligned e.id e.call.peer _).2
      · rcases List.mem_append.mp hx with hx | hx
        · exact supplied.right x hx
        · rw [List.mem_singleton.mp hx]
          exact right
    | failed error =>
      simp only [Run.intake, told, List.append_nil]
      exact ⟨aligned_fail supplied.aligned e.id, supplied.right⟩
    | timedOut =>
      simp only [Run.intake, told, List.append_nil]
      exact ⟨aligned_fail supplied.aligned e.id, supplied.right⟩

/-- Once all is there, every block that has something to ask for has it from one answer, and is put
down to its sender. -/
theorem Supplied.supplier (h : Supplied headers log f) (done : f.isDone) {i : Nat} {header : Header}
    (at' : headers[i]? = some header) (asked : BlockData.committedEmpty δ header = false) :
    ∃ item, ∃ x ∈ log, f.output[i]? = some item ∧ f.deliveredBy[i]? = some (some x.call.peer) ∧
      x.Brings headers i item ∧
        ∀ y ∈ log, ∀ item', y.Brings headers i item' → y.call.peer = x.call.peer ∧ item' = item := by
  obtain ⟨stored, placed, full, perm⟩ := h.aligned.stored_of_done done
  have wanted : f.wanted = wantedFrom δ 0 headers := h.aligned.headers_eq ▸ placed.wanted_eq
  obtain ⟨p, ⟨item, peer⟩, hp, hx, hitem, hpeer⟩ :=
    placed.asked_of_full full (h.aligned.headers_eq ▸ at') asked
  have kept : (p, item, peer) ∈ log.flatMap (·.kept) :=
    perm.mem_iff.mpr (Positioned.mem_numbered.mpr ⟨Nat.zero_le _, hx⟩)
  obtain ⟨x, hmem, hkept⟩ := List.mem_flatMap.mp kept
  obtain ⟨rfl, header', stands, carries⟩ := h.right x hmem p item peer hkept
  obtain rfl : header' = header := by
    rw [← h.aligned.headerAt?_eq, headerAt?, hp, h.aligned.headers_eq] at stands
    exact Option.some.inj (stands.symm.trans at')
  refine ⟨item, x, hmem, placed.output_of_full full hitem, hpeer,
    ⟨p, header', wanted ▸ hp, at', carries, hkept⟩, ?_⟩
  rintro y hy item' ⟨p', -, hp', -, -, hkept'⟩
  obtain rfl : p' = p := by
    have inside := (List.getElem?_eq_some_iff.mp hp').1
    exact (List.getElem?_inj inside (nodup_wantedFrom headers 0)).mp (hp'.trans (wanted ▸ hp).symm)
  have kept' := perm.mem_iff.mp (List.mem_flatMap.mpr ⟨y, hy, hkept'⟩)
  have same := (Positioned.mem_numbered.mp kept').2
  rw [Nat.sub_zero, hx, Option.some.injEq, Prod.mk.injEq] at same
  exact ⟨same.2.symm, same.1.symm⟩

/-- A block with nothing to ask for is put down to nobody. -/
theorem Aligned.nobody {kept : Positioned (δ × PeerId)} (h : Aligned headers kept f)
    (done : f.isDone) {i : Nat} {header : Header} (at' : headers[i]? = some header)
    (empty : BlockData.committedEmpty δ header) :
    f.output[i]? = some BlockData.empty ∧ f.deliveredBy[i]? = some none := by
  obtain ⟨stored, placed, full, -⟩ := h.stored_of_done done
  have known := placed.known i header (h.headers_eq ▸ at') empty
  exact ⟨placed.output_of_full full known.1, known.2⟩

/-- Every item is put down to the one who sent it, and an empty one to nobody. -/
theorem Supplied.credit [LawfulBlockData δ] [Discerning δ] (h : Supplied headers log f)
    (done : f.isDone) {i : Nat} {header : Header} (at' : headers[i]? = some header) :
    ∃ item who, f.output[i]? = some item ∧ f.deliveredBy[i]? = some who ∧
      Intake.Credit headers log i item who := by
  cases bare : BlockData.committedEmpty δ header with
  | true =>
    obtain ⟨output, deliveredBy⟩ := h.aligned.nobody done at' bare
    exact ⟨_, _, output, deliveredBy, .nobody⟩
  | false =>
    obtain ⟨item, x, sent, output, deliveredBy, brings, alone⟩ := h.supplier done at' bare
    refine ⟨item, _, output, deliveredBy, .sender ?_ sent brings fun y hy item' brings' =>
      (alone y hy item' brings').1⟩
    rintro rfl
    obtain ⟨item', output', valid⟩ := h.aligned.valid_output done at'
    obtain rfl := Option.some.inj (output.symm.trans output')
    rw [Discerning.committed valid] at bare
    cases bare

end BlockFetch
end ChainSync.Fetch
