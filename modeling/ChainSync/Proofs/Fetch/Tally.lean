import ChainSync.Proofs.Fetch.Abiding
import ChainSync.Proofs.Fetch.BlockData
import ChainSync.Proofs.Headers.Fill
import ChainSync.State.Download
set_option autoImplicit false

/-!
What a task adds to the counters of a session. Whatever it is sent, it has counted what it has, and
nothing else.
-/

namespace ChainSync

open Fetch

/-- What a session reports of its chain, apart from its mode, its phase and the state it fetches. -/
def SyncProgress.figures (p : SyncProgress) : SyncProgress :=
  { p with mode := .full, phase := .idle, stateNodes := 0, pendingStateNodes := 0 }

namespace Fetch

variable {σ : Type}

def Hub.figures (h : Hub σ) : SyncProgress := h.board.progress.figures

theorem Hub.Wanes.figures {h h' : Hub σ} (wanes : h.Wanes h') : h'.figures = h.figures := by
  rw [Hub.figures, wanes.board, Hub.figures]

end Fetch

namespace HeaderFill

theorem released_le_deliver (f : HeaderFill) (id : RequestId) (peer : PeerId)
    (headers : List Header) :
    f.released.length ≤ (f.deliver id peer headers).1.released.length := by
  rcases f.deliver_cases id peer headers with
    ⟨-, heq⟩ | ⟨r, queue, -, ⟨mismatches, heq, -⟩ | ⟨mismatches, atFault, heq⟩ | ⟨heq, -⟩⟩
  all_goals rw [heq]
  simp [collect]

/-- A fill has counted the headers that it has released. -/
theorem joint_tallied (σ : Type) (before : SyncProgress) :
    Joint fun (f : HeaderFill) (board : Board σ) =>
      board.progress.figures = { before with headers := before.headers + f.released.length } where
  reserve counted reserved := by
    obtain ⟨id, range, queue, -, -, rfl⟩ := reserve_eq_some reserved
    exact counted
  fail {f board} id counted := by
    have same : (f.fail id).2.released = f.released := by
      unfold fail
      split <;> rfl
    exact same ▸ counted
  failPeer peer counted := counted
  deliver {f board} id peer payload counted := by
    have grown := f.released_le_deliver id peer payload.headersOf
    have count : board.progress.headers = before.headers + f.released.length :=
      congrArg SyncProgress.headers counted
    have told : (Receiver.deliver f board id peer payload).2.1.progress.figures =
        { board.progress.figures with headers := board.progress.headers +
            ((f.deliver id peer payload.headersOf).1.released.length - f.released.length) } := rfl
    rw [told, counted, count, Nat.add_assoc, Nat.add_sub_cancel' grown]
    rfl

end HeaderFill

namespace Fetch

/-- Counting data is not seen in anything that the figures leave out. -/
class FiguredData (δ : Type) [BlockData δ] : Prop where
  figures_count (p : SyncProgress) (n : Nat) :
    (BlockData.count δ p n).figures = BlockData.count δ p.figures n

instance : FiguredData Body := ⟨fun _ _ => rfl⟩

instance : FiguredData (List Receipt) := ⟨fun _ _ => rfl⟩

namespace BlockFetch

/-- Bodies and receipts have counters of their own. -/
theorem count_swap (p : SyncProgress) (m n : Nat) :
    BlockData.count Body (BlockData.count (List Receipt) p n) m =
      BlockData.count (List Receipt) (BlockData.count Body p m) n := rfl

variable {δ : Type} [BlockData δ] {headers : List Header} {f : BlockFetch δ}

/-- How many of the headers need no item or have theirs. -/
def supplied (headers : List Header) (f : BlockFetch δ) : Nat :=
  headers.length - (wantedFrom δ 0 headers).length + f.released

theorem Aligned.supplied_of_done {kept : Positioned (δ × PeerId)} (h : Aligned headers kept f)
    (done : f.isDone) : f.supplied headers = headers.length := by
  obtain ⟨stored, placed, full, -⟩ := h.stored_of_done done
  have few := length_wantedFrom_le (δ := δ) headers 0
  rw [placed.wanted_eq, h.headers_eq] at full
  rw [supplied, placed.released_eq, full, Nat.sub_add_cancel few]

theorem figures_begin [FiguredData δ] (session : Nat) (headers : List Header) (size : Nat)
    (progress : SyncProgress) :
    (begin session headers size progress : BlockFetch δ × SyncProgress).2.figures =
      BlockData.count δ progress.figures
        ((start session headers size : BlockFetch δ).supplied headers) :=
  FiguredData.figures_count ..

/-- A fetch that has counted the empty blocks, and the items that it has put in their places. -/
def Tallied (headers : List Header) (before now : SyncProgress) (f : BlockFetch δ) : Prop :=
  (∃ kept, Aligned headers kept f) ∧ now = BlockData.count δ before (f.supplied headers)

variable [LawfulBlockData δ] [FiguredData δ]

theorem joint_tallied (σ : Type) (headers : List Header) (before : SyncProgress) :
    Joint fun (f : BlockFetch δ) (board : Board σ) =>
      f.Tallied headers before board.progress.figures where
  reserve := by
    rintro f g board peer capacity live a ⟨⟨kept, aligned⟩, counted⟩ reserved
    have same : g.released = f.released := reserve_released reserved
    exact ⟨⟨kept, aligned_reserve aligned reserved⟩, by rw [counted, supplied, supplied, same]⟩
  fail := by
    rintro f board id ⟨⟨kept, aligned⟩, counted⟩
    have same : (Workload.fail f id).2.released = f.released := fail_released ..
    exact ⟨⟨kept, aligned_fail aligned id⟩, by rw [counted, supplied, supplied, same]⟩
  failPeer := by
    rintro f board peer ⟨⟨kept, aligned⟩, counted⟩
    exact ⟨⟨kept, aligned_failPeer aligned peer⟩, counted⟩
  deliver := by
    rintro f board id peer payload ⟨⟨kept, aligned⟩, counted⟩
    have grown := f.released_le_deliver id peer (BlockData.ofPayload payload)
    refine ⟨⟨_, (aligned_deliver aligned id peer (BlockData.ofPayload payload)).2⟩, ?_⟩
    simp only [Receiver.deliver]
    rw [FiguredData.figures_count, counted, LawfulBlockData.count_count, supplied, supplied,
      Nat.add_assoc, Nat.add_sub_cancel' grown]

end BlockFetch
end Fetch

/-- The state that is fetched is not among the figures. -/
theorem StateDownload.joint_untallied {σ : Type} [NodeStore σ] (before : SyncProgress) :
    Joint fun (_ : StateDownload) (board : Board σ) => board.progress.figures = before where
  reserve counted _ := counted
  fail _ counted := counted
  failPeer _ counted := counted
  deliver id peer payload counted := by
    simp only [Receiver.deliver]
    split <;> exact counted

end ChainSync
