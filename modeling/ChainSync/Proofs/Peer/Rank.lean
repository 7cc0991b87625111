import ChainSync.Proofs.Peer.Choice
set_option autoImplicit false

/-!
Peers of different ids are never level, and whoever is chosen is above everybody else who could
have been.
-/

namespace ChainSync

namespace SyncPeer

open Std

/-- A measured round trip is above none, and a shorter one above a longer one. -/
def roundTrips (a b : SyncPeer) : Ordering :=
  match a.rtt, b.rtt with
  | some x, some y => compare y.nanos x.nanos
  | some _, none => .gt
  | none, some _ => .lt
  | none, none => .eq

instance : TransCmp roundTrips where
  eq_swap {a b} := by
    unfold roundTrips
    cases a.rtt <;> cases b.rtt <;> simp [Nat.compare_swap]
  isLE_trans {a b c} := by
    unfold roundTrips
    cases a.rtt <;> cases b.rtt <;> cases c.rtt <;> simp [Nat.isLE_compare]
    omega

instance : TransCmp rank :=
  inferInstanceAs (TransCmp (compareLex
    (compareOn fun p : SyncPeer => p.info.totalDifficulty.toNat)
    (compareLex roundTrips fun a b : SyncPeer => compareOn (fun p : SyncPeer => p.id.toNat) b a)))

variable {a b c : SyncPeer}

theorem id_eq_of_rank (level : a.rank b = .eq) : a.id = b.id := by
  simp only [rank, Ordering.then_eq_eq, Nat.compare_eq_eq] at level
  exact (BitVec.eq_of_toNat_eq level.2.2).symm

theorem rank_gt (least : (a.rank b).isGE) (other : b.id ≠ a.id) : (a.rank b).isGT := by
  cases ranked : a.rank b with
  | gt => rfl
  | eq => exact absurd (id_eq_of_rank ranked).symm other
  | lt => simp [ranked] at least

end SyncPeer

namespace PeerSet

variable {s : PeerSet} {p q : SyncPeer}

/-- Whoever is kept when one goes through a list is not below anybody in it. -/
theorem isGE_foldl_rank (rest : List SyncPeer) (first : SyncPeer) : ∀ q ∈ first :: rest,
    ((rest.foldl (fun a b => if (a.rank b).isGT then a else b) first).rank q).isGE := by
  induction rest generalizing first with
  | nil => simp [Std.ReflCmp.compare_self]
  | cons next rest ih =>
    have above : ∀ q ∈ [first, next],
        ((if (first.rank next).isGT then first else next).rank q).isGE := by
      split
      · rename_i greater
        have least : (first.rank next).isGE := by simp [Ordering.isGT_iff_eq_gt.mp greater]
        simp [Std.ReflCmp.compare_self, least]
      · rename_i below
        have least : (next.rank first).isGE := by
          rw [Std.OrientedCmp.isGE_iff_isLE]
          cases ranked : first.rank next with
          | gt => simp [ranked] at below
          | _ => rfl
        simp [Std.ReflCmp.compare_self, least]
    rw [List.foldl_cons]
    generalize (if (first.rank next).isGT then first else next) = higher at above ⊢
    have kept := ih higher higher (List.mem_cons_self ..)
    intro q hq
    simp only [List.mem_cons] at hq
    rcases hq with rfl | rfl | hq
    · exact Std.TransCmp.isGE_trans kept (above _ (by simp))
    · exact Std.TransCmp.isGE_trans kept (above _ (by simp))
    · exact ih higher q (List.mem_cons_of_mem _ hq)

theorem isGE_best? (best : s.best? = some p) (hq : q ∈ s.peers) (live : q.live = true) :
    (p.rank q).isGE := by
  have hlive : q ∈ s.livePeers := List.mem_filter.mpr ⟨hq, live⟩
  unfold best? at best
  split at best
  · cases best
  · rename_i first rest heq
    cases best
    exact isGE_foldl_rank rest first q (heq ▸ hlive)

end PeerSet

namespace Attempt

variable {fuel : Nat} {peers : PeerSet} {master q : SyncPeer}

theorem isGE_selectMaster (unique : peers.ids.Nodup)
    (chosen : (selectMaster fuel peers).2 = .ok master) (hq : q ∈ peers.peers)
    (live : q.live = true) (compatible : peers.isForkCompatible q = true) :
    (master.rank q).isGE := by
  induction fuel generalizing peers with
  | zero => cases chosen
  | succ fuel ih =>
    unfold selectMaster at chosen
    split at chosen
    · cases chosen
    · rename_i best hbest
      split at chosen
      · cases chosen
        exact PeerSet.isGE_best? hbest hq live
      · rename_i incompatible
        have other : q.id ≠ best.id := by
          intro same
          rw [PeerSet.eq_of_id_eq unique hq (PeerSet.best?_mem hbest).1 same] at compatible
          exact incompatible compatible
        exact ih (by simpa using unique) chosen (PeerSet.mem_drop hq other)
          (by simpa using compatible)

end Attempt

namespace PeerSet

/-- The peer that an attempt takes as its master. -/
def choice (s : PeerSet) : Option SyncPeer :=
  (Attempt.selectMaster (s.peers.length + 1) s).2.toOption

/-- Whom to sync from: the highest ranked among the live peers on our fork, if there is any. -/
inductive Master (s : PeerSet) : Option SyncPeer → Prop where
  | best {p : SyncPeer} (mem : p ∈ s.peers) (live : p.live = true)
      (compatible : s.isForkCompatible p = true)
      (above : ∀ q ∈ s.peers, q.live = true → s.isForkCompatible q = true → q.id ≠ p.id →
        (p.rank q).isGT) : Master s (some p)
  | nobody (alone : ∀ q ∈ s.peers, q.live = true → s.isForkCompatible q = false) : Master s none

theorem choice_eq_some {s : PeerSet} {p : SyncPeer} : s.choice = some p ↔
    (Attempt.selectMaster (s.peers.length + 1) s).2 = .ok p := by
  unfold choice
  cases (Attempt.selectMaster (s.peers.length + 1) s).2 <;> simp [Except.toOption]

theorem master_choice {s : PeerSet} (unique : s.ids.Nodup) : s.Master s.choice := by
  cases chosen : s.choice with
  | some p =>
    have selected := choice_eq_some.mp chosen
    obtain ⟨hmem, live, compatible⟩ := Attempt.selectMaster_ok selected
    refine .best hmem live compatible fun q hq hlive hcompatible other => ?_
    exact SyncPeer.rank_gt (Attempt.isGE_selectMaster unique selected hq hlive hcompatible) other
  | none =>
    refine .nobody fun q hq live => ?_
    rw [Bool.eq_false_iff]
    intro compatible
    have enough : s.livePeers.length < s.peers.length + 1 :=
      Nat.lt_succ_of_le (List.length_filter_le ..)
    obtain ⟨p, selected⟩ := Attempt.selectMaster_finds unique hq live compatible enough
    cases chosen.symm.trans (choice_eq_some.mpr selected)

end PeerSet
end ChainSync
