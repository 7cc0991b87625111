import ChainSync.Proofs.Fetch.BlockData
import ChainSync.Proofs.Headers.Fill
import ChainSync.Proofs.Headers.Skeleton
set_option autoImplicit false

/-!
The chain that an attempt lays behind its origin, segment by segment, and what its tasks keep while
they run.
-/

namespace ChainSync

open Fetch

/-- Headers that continue the chain of `origin`, up to the target at most, and meet the head that
the master advertised. `shown` is whether the master has shown that head itself. -/
structure Laid (shown : Prop) (master : SyncPeer) (target : Nat) (origin : Header)
    (laid : List Header) : Prop where
  heights : laid.map Header.height = List.range' (origin.height + 1) laid.length
  linked : (origin :: laid).IsChain fun parent h => h.parentHash = parent.hash
  bounded : ∀ h ∈ laid, h.height ≤ target
  crowned : ∀ h ∈ laid, h.height = master.info.head.toNat → h.hash = master.info.headHash ∧ shown

namespace Laid

variable {shown : Prop} {master : SyncPeer} {target : Nat} {origin : Header}
  {laid more : List Header}

theorem nil (master : SyncPeer) (target : Nat) (origin : Header) :
    Laid shown master target origin [] :=
  ⟨rfl, .singleton _, by simp, by simp⟩

theorem tip_height (h : Laid shown master target origin laid) :
    (laid.getLastD origin).height = origin.height + laid.length := by
  cases hl : laid.getLast? with
  | none =>
    obtain rfl := List.getLast?_eq_none_iff.mp hl
    rfl
  | some last =>
    have hlast := congrArg List.getLast? h.heights
    rw [List.getLast?_map, hl, List.getLast?_range'] at hlast
    have hne : laid.length ≠ 0 := by
      intro hz
      simp [List.length_eq_zero_iff.mp hz] at hl
    rw [if_neg hne, Option.map_some, Option.some.injEq] at hlast
    rw [List.getLastD_eq_getLast?, hl, Option.getD_some]
    omega

theorem append (h : Laid shown master target origin laid)
    (hm : Laid shown master target (laid.getLastD origin) more) :
    Laid shown master target origin (laid ++ more) := by
  refine ⟨?_, ?_, fun g hg => ?_, fun g hg => ?_⟩
  · rw [List.map_append, h.heights, hm.heights, h.tip_height, List.length_append,
      ← List.range'_append_1]
    congr 2
    omega
  · rw [← List.cons_append]
    refine List.isChain_append.mpr ⟨h.linked, hm.linked.tail, fun parent hp g hg => ?_⟩
    rw [List.getLast?_cons, ← List.getLastD_eq_getLast?] at hp
    obtain rfl := Option.mem_some_iff.mp hp
    cases more with
    | nil => cases hg
    | cons g' rest =>
      obtain rfl := Option.mem_some_iff.mp hg
      exact (List.isChain_cons_cons.mp hm.linked).1
  · rcases List.mem_append.mp hg with hg | hg
    · exact h.bounded g hg
    · exact hm.bounded g hg
  · rcases List.mem_append.mp hg with hg | hg
    · exact h.crowned g hg
    · exact hm.crowned g hg

theorem initial (h : Laid shown master target origin (laid ++ more)) :
    Laid shown master target origin laid := by
  refine ⟨?_, ?_, fun g hg => h.bounded g (List.mem_append_left _ hg),
    fun g hg => h.crowned g (List.mem_append_left _ hg)⟩
  · have heights := h.heights
    rw [List.map_append, List.length_append, ← List.range'_append_1] at heights
    exact (List.append_inj heights (by simp)).1
  · have linked := h.linked
    rw [← List.cons_append] at linked
    exact linked.left_of_append

/-- What is laid next goes on from the tip. -/
theorem heights_above (h : Laid shown master target origin (laid ++ more)) :
    more.map Header.height = List.range' ((laid.getLastD origin).height + 1) more.length := by
  have heights := h.heights
  rw [List.map_append, List.length_append, ← List.range'_append_1] at heights
  rw [h.initial.tip_height, (List.append_inj heights (by simp)).2]
  congr 1
  omega

theorem higher (h : Laid shown master target origin (laid ++ more)) {g : Header} (hg : g ∈ more) :
    (laid.getLastD origin).height < g.height := by
  have hmem := List.mem_map_of_mem (f := Header.height) hg
  rw [h.heights_above, List.mem_range'_1] at hmem
  omega

theorem head_height (h : Laid shown master target origin (laid ++ more)) {g : Header}
    (hg : more.head? = some g) : g.height = (laid.getLastD origin).height + 1 := by
  have heights := congrArg List.head? h.heights_above
  rw [List.head?_map, hg, List.head?_range'] at heights
  split at heights
  · cases heights
  · exact Option.some.inj heights

end Laid

namespace HeaderFill

variable {engine : Engine} {origin : Header} {skeleton : List Header} {start stop : Nat}

/-- A fill that goes on as it began, whatever it was sent. -/
theorem lasting_filling (σ : Type) (engine : Engine) (start stop : Nat)
    (ascending : (origin :: skeleton).Pairwise (·.height < ·.height)) :
    Lasting σ fun f : HeaderFill => ∃ sent, Filling engine origin skeleton sent start stop f where
  reserve := by
    rintro t t' peer capacity live a ⟨sent, h⟩ hr
    exact ⟨sent, filling_reserve h hr⟩
  fail := by
    rintro t id ⟨sent, h⟩
    exact ⟨sent, filling_fail h id⟩
  failPeer := by
    rintro t peer ⟨sent, h⟩
    exact ⟨sent, filling_failPeer h peer⟩
  deliver := by
    rintro t board id peer payload ⟨sent, h⟩
    refine ⟨sent ++ payload.headersOf, filling_deliver ascending
      (h.mono fun g hg => List.mem_append_left _ hg) id peer payload.headersOf
      fun g hg => List.mem_append_right _ hg⟩
  current _ _ _ _ _ := rfl
  known f _ id peer payload := f.deliver_known id peer payload.headersOf

/-- A filled skeleton is a segment of the chain, and ends where the skeleton does. -/
theorem Filling.laid {f : HeaderFill} {sent : List Header} {shown : Prop} {master : SyncPeer}
    {target : Nat}
    (ascending : (origin :: skeleton).Pairwise (·.height < ·.height)) {last : Header}
    (hlast : skeleton.getLast? = some last)
    (h : Filling engine origin skeleton sent (origin.height + 1) (last.height + 1) f)
    (done : f.isDone) (bounded : last.height ≤ target) (below : target ≤ master.info.head.toNat)
    (crowned : last.height = master.info.head.toNat → last.hash = master.info.headHash ∧ shown) :
    f.released ≠ [] ∧ Laid shown master target origin f.released := by
  have hmem := List.mem_of_getLast? hlast
  have hlt := (List.pairwise_cons.mp ascending).1 last hmem
  have hlen := h.length_of_done (by omega) done
  have heights := h.backed.heights_eq
  have height : ∀ g ∈ f.released, g.height ≤ last.height := by
    intro g hg
    have hheight := List.mem_map_of_mem (f := Header.height) hg
    rw [heights, List.mem_range'_1] at hheight
    omega
  refine ⟨fun hnil => ?_, heights, h.backed.hash_chain ascending h.nodup,
    fun g hg => (height g hg).trans bounded, fun g hg hhead => ?_⟩
  · rw [hnil, List.length_nil] at hlen
    omega
  · have := height g hg
    have hsame : g.height = last.height := by omega
    rw [h.backed.hash_eq hg hmem hsame]
    exact crowned (by omega)

end HeaderFill

theorem Fetch.BlockFetch.lasting_aligned (σ : Type) {δ : Type} [BlockData δ] [LawfulBlockData δ]
    (headers : List Header) :
    Lasting σ fun f : BlockFetch δ => ∃ kept, Aligned headers kept f where
  reserve := by
    rintro t t' peer capacity live a ⟨kept, h⟩ hr
    exact ⟨kept, aligned_reserve h hr⟩
  fail := by
    rintro t id ⟨kept, h⟩
    exact ⟨kept, aligned_fail h id⟩
  failPeer := by
    rintro t peer ⟨kept, h⟩
    exact ⟨kept, aligned_failPeer h peer⟩
  deliver := by
    rintro t board id peer payload ⟨kept, h⟩
    exact ⟨_, (aligned_deliver h id peer (BlockData.ofPayload payload)).2⟩
  current _ _ _ _ _ := LawfulBlockData.count_current ..
  known := by
    rintro f board id peer payload hash ⟨⟩

theorem StateDownload.deliver_error {σ : Type} [NodeStore σ] {d : StateDownload} {store : σ}
    {id : RequestId} {peer : PeerId} {nodes : List Bytes} {err : SyncError}
    (failed : (d.deliver store id peer nodes).2.2 = .error err) : ∃ e, err = .stateStore e := by
  unfold deliver at failed
  split at failed
  · cases failed
  · dsimp only at failed
    split at failed
    · cases failed
      exact ⟨_, rfl⟩
    · cases failed

theorem StateDownload.lasting_true (σ : Type) [NodeStore σ] :
    Lasting σ fun _ : StateDownload => True where
  reserve _ _ := trivial
  fail _ _ := trivial
  failPeer _ _ := trivial
  deliver _ _ _ _ _ := trivial
  current t board id peer payload := by
    simp only [Receiver.deliver]
    split <;> rfl
  known t board id peer payload hash failed := by
    have refused : (t.deliver board.store id peer payload.nodesOf).2.2 =
        .error (.unknownBlock hash) := failed
    obtain ⟨e, he⟩ := deliver_error refused
    cases he

end ChainSync
