import Mathlib.Data.Set.Function
import ChainSync.Proofs.Block.HeaderEncoding
import ChainSync.Proofs.Headers.Gaps
set_option autoImplicit false

/-!
Headers held by position, each of which an engine accepted behind an anchor or another of them.
-/

namespace ChainSync.HeaderFill

open Fetch

/-- The headers may come from different peers. They need not be linked to each other directly: the
one before the first of a gap is only known to have the hash of the anchor there. -/
structure Backed (engine : Engine) (origin : Header) (skeleton sent : List Header)
    (held : Positioned Header) : Prop where
  height : ∀ e ∈ held, e.2.height = e.1
  within : ∀ e ∈ held, ∃ r ∈ gaps origin.height skeleton, r.start ≤ e.1 ∧ e.1 < r.start + r.count
  parent : ∀ e ∈ held, ∃ g, (g ∈ origin :: skeleton ∨ (g.height, g) ∈ held) ∧ engine.Follows g e.2
  anchored : ∀ e ∈ held, ∀ s ∈ skeleton, s.height = e.1 → e.2.hash = s.hash
  sent : ∀ e ∈ held, e.2 ∈ sent

variable {engine : Engine} {origin : Header} {skeleton sent : List Header}

theorem Backed.nil : Backed engine origin skeleton sent [] := by
  constructor <;> simp

theorem Backed.mono {held : Positioned Header} {more : List Header}
    (h : Backed engine origin skeleton sent held) (hsub : ∀ g ∈ sent, g ∈ more) :
    Backed engine origin skeleton more held :=
  ⟨h.height, h.within, h.parent, h.anchored, fun e he => hsub _ (h.sent e he)⟩

theorem Backed.append {held more : Positioned Header}
    (h : Backed engine origin skeleton sent held) (hm : Backed engine origin skeleton sent more) :
    Backed engine origin skeleton sent (held ++ more) := by
  refine ⟨fun e he => ?_, fun e he => ?_, fun e he => ?_, fun e he => ?_, fun e he => ?_⟩ <;>
    rcases List.mem_append.mp he with he | he
  · exact h.height e he
  · exact hm.height e he
  · exact h.within e he
  · exact hm.within e he
  · obtain ⟨g, hg, hf⟩ := h.parent e he
    exact ⟨g, hg.imp_right (List.mem_append_left _), hf⟩
  · obtain ⟨g, hg, hf⟩ := hm.parent e he
    exact ⟨g, hg.imp_right (List.mem_append_right _), hf⟩
  · exact h.anchored e he
  · exact hm.anchored e he
  · exact h.sent e he
  · exact hm.sent e he

theorem Backed.perm {held other : Positioned Header} (h : Backed engine origin skeleton sent held)
    (hp : held.Perm other) : Backed engine origin skeleton sent other := by
  refine ⟨fun e he => h.height e (hp.mem_iff.mpr he), fun e he => h.within e (hp.mem_iff.mpr he),
    fun e he => ?_, fun e he => h.anchored e (hp.mem_iff.mpr he),
    fun e he => h.sent e (hp.mem_iff.mpr he)⟩
  obtain ⟨g, hg, hf⟩ := h.parent e (hp.mem_iff.mpr he)
  exact ⟨g, hg.imp_right hp.mem_iff.mp, hf⟩

variable (ascending : (origin :: skeleton).Pairwise (·.height < ·.height))
include ascending

/-- A faultless answer for a whole gap. -/
theorem Backed.ofRun {r : Range} (hr : r ∈ gaps origin.height skeleton) {opening : Header}
    (hopening : opening ∈ origin :: skeleton) {headers : List Header}
    (faultless : firstFault engine r r.start opening headers = none)
    (whole : headers.length = r.count)
    (closed : ∀ s ∈ skeleton, s.height = r.stop - 1 →
      headers.getLast?.map Header.hash = some s.hash)
    (hsent : ∀ h ∈ headers, h ∈ sent) :
    Backed engine origin skeleton sent (Positioned.numbered r.start headers) := by
  obtain ⟨heights, chain⟩ := follow_of_firstFault faultless
  have height : ∀ e ∈ Positioned.numbered r.start headers, e.2.height = e.1 := by
    intro e he
    obtain ⟨hle, hget⟩ := Positioned.mem_numbered.mp he
    have hmap := congrArg (·[e.1 - r.start]?) heights
    simp only [List.getElem?_map, hget, Option.map_some] at hmap
    rw [List.getElem?_range' (List.getElem?_eq_some_iff.mp hget).1, Option.some.injEq] at hmap
    omega
  have bound : ∀ e ∈ Positioned.numbered r.start headers,
      r.start ≤ e.1 ∧ e.1 < r.start + r.count := by
    intro e he
    obtain ⟨hle, hget⟩ := Positioned.mem_numbered.mp he
    have := (List.getElem?_eq_some_iff.mp hget).1
    omega
  refine ⟨height, fun e he => ⟨r, hr, bound e he⟩, fun e he => ?_, fun e he s hs hheight => ?_,
    fun e he => ?_⟩
  · obtain ⟨hle, hget⟩ := Positioned.mem_numbered.mp he
    obtain ⟨hlt, hat⟩ := List.getElem?_eq_some_iff.mp hget
    have hfollows := List.isChain_iff_getElem.mp chain (e.1 - r.start) (by simpa using hlt)
    simp only [List.getElem_cons_succ, hat] at hfollows
    cases hi : e.1 - r.start with
    | zero =>
      exact ⟨opening, .inl hopening, by simpa only [hi, List.getElem_cons_zero] using hfollows⟩
    | succ i =>
      simp only [hi, List.getElem_cons_succ] at hfollows
      refine ⟨_, .inr ?_, hfollows⟩
      -- the header before it is in the same run
      have hmem : (r.start + i, headers[i]) ∈ Positioned.numbered r.start headers :=
        Positioned.mem_numbered.mpr ⟨Nat.le_add_right .., by simp⟩
      rw [height _ hmem]
      exact hmem
  · obtain ⟨hle, hget⟩ := Positioned.mem_numbered.mp he
    obtain ⟨hlt, hat⟩ := List.getElem?_eq_some_iff.mp hget
    have hb := bound e he
    have hlast := closing_of_gap ascending hr (List.mem_cons_of_mem _ hs) (by omega) (by omega)
    have hstop : r.stop = r.start + r.count := rfl
    have hend := closed s hs hlast
    rw [List.getLast?_eq_getElem?, show headers.length - 1 = e.1 - r.start by omega, hget] at hend
    simpa using hend
  · exact hsent _ (List.mem_of_getElem? (Positioned.mem_numbered.mp he).2)

section Released

variable {released : List Header} {others : Positioned Header}
  (h : Backed engine origin skeleton sent
    (Positioned.numbered (origin.height + 1) released ++ others))
  (nodup : ((Positioned.numbered (origin.height + 1) released ++ others).map Prod.fst).Nodup)
include h

omit ascending in
theorem Backed.heights_eq :
    released.map Header.height = List.range' (origin.height + 1) released.length := by
  refine List.ext_getElem? fun i => ?_
  rw [List.getElem?_map]
  by_cases hi : i < released.length
  · have hmem : (origin.height + 1 + i, released[i]) ∈
        Positioned.numbered (origin.height + 1) released :=
      Positioned.mem_numbered.mpr ⟨Nat.le_add_right .., by simp⟩
    rw [List.getElem?_eq_getElem hi, List.getElem?_range' hi, Option.map_some,
      h.height _ (List.mem_append_left _ hmem)]
    simp
  · rw [List.getElem?_eq_none (by omega), List.getElem?_eq_none (by simpa using hi),
      Option.map_none]

omit ascending in
theorem Backed.hash_eq {g s : Header} (hg : g ∈ released) (hs : s ∈ skeleton)
    (hheight : g.height = s.height) : g.hash = s.hash := by
  obtain ⟨i, hi, rfl⟩ := List.getElem_of_mem hg
  have hmem : (origin.height + 1 + i, released[i]) ∈
      Positioned.numbered (origin.height + 1) released ++ others :=
    List.mem_append_left _ (Positioned.mem_numbered.mpr ⟨Nat.le_add_right .., by simp⟩)
  exact h.anchored _ hmem s hs (hheight.symm.trans (h.height _ hmem))

omit ascending in
theorem Backed.sent_of_released {g : Header} (hg : g ∈ released) : g ∈ sent := by
  obtain ⟨i, hi, rfl⟩ := List.getElem_of_mem hg
  exact h.sent (origin.height + 1 + i, released[i])
    (List.mem_append_left _ (Positioned.mem_numbered.mpr ⟨Nat.le_add_right .., by simp⟩))

include nodup

/-- What the engine saw before a released header has at least the hash of the header that was
released before it. -/
theorem Backed.predecessor {before behind : List Header} {parent g : Header}
    (heq : origin :: released = before ++ parent :: g :: behind) :
    ∃ seen, (seen = parent ∨ parent ∈ released ∧ seen ∈ skeleton) ∧ seen.hash = parent.hash ∧
      engine.Follows seen g := by
  have hg : (origin.height + 1 + before.length, g) ∈
      Positioned.numbered (origin.height + 1) released ++ others := by
    refine List.mem_append_left _ (Positioned.mem_numbered.mpr ⟨Nat.le_add_right .., ?_⟩)
    have := congrArg (·[before.length + 1]?) heq
    simpa using this
  obtain ⟨seen, hseen, follows⟩ := h.parent _ hg
  have hheight : seen.height = origin.height + before.length := by
    have := h.height _ hg
    have := follows.link.1
    simp only at *
    omega
  cases before with
  | nil =>
    obtain ⟨rfl, -⟩ := List.cons.injEq .. |>.mp heq
    rcases hseen with hseen | hseen
    · have hsame := eq_of_height_eq ascending hseen (List.mem_cons_self ..) hheight
      exact ⟨seen, .inl hsame, congrArg _ hsame, follows⟩
    · obtain ⟨r, hr, hle, -⟩ := h.within _ hseen
      have := origin_lt_of_gap ascending hr
      simp only [List.length_nil] at *
      omega
  | cons o before =>
    obtain ⟨rfl, htail⟩ := List.cons.injEq .. |>.mp heq
    have hmem : parent ∈ released := by simp [htail]
    have hparent : (seen.height, parent) ∈
        Positioned.numbered (origin.height + 1) released ++ others := by
      refine List.mem_append_left _ (Positioned.mem_numbered.mpr ?_)
      rw [List.length_cons] at hheight
      refine ⟨by omega, ?_⟩
      rw [htail, show seen.height - (origin.height + 1) = before.length by omega]
      simp
    rcases hseen with hseen | hseen
    · have hs : seen ∈ skeleton := by
        rcases List.mem_cons.mp hseen with rfl | hs
        · rw [List.length_cons] at hheight
          omega
        · exact hs
      exact ⟨seen, .inr ⟨hmem, hs⟩, (h.anchored _ hparent seen hs rfl).symm, follows⟩
    · have hsame : parent = seen := by
        have hl := Keyed.lookup_eq_some_iff nodup |>.mpr hparent
        rw [Keyed.lookup_eq_some_iff nodup |>.mpr hseen, Option.some_inj] at hl
        exact hl.symm
      exact ⟨seen, .inl hsame.symm, congrArg _ hsame.symm, follows⟩

theorem Backed.hash_chain :
    (origin :: released).IsChain fun parent g => g.parentHash = parent.hash := by
  rw [List.isChain_iff_forall_rel_of_append_cons_cons]
  intro parent g before behind heq
  obtain ⟨seen, -, hhash, follows⟩ := h.predecessor ascending nodup heq
  rw [follows.link.2, hhash]

/-- A header with the hash of an anchor is the anchor, if no two headers of the run collide. -/
theorem Backed.chain
    (collisionFree : Set.InjOn keccak (Header.encode '' {g | g ∈ skeleton ∨ g ∈ sent})) :
    (origin :: released).IsChain engine.Follows := by
  rw [List.isChain_iff_forall_rel_of_append_cons_cons]
  intro parent g before behind heq
  obtain ⟨seen, hseen, hhash, follows⟩ := h.predecessor ascending nodup heq
  rcases hseen with rfl | ⟨hparent, hseen⟩
  · exact follows
  · have hsame := collisionFree ⟨seen, .inl hseen, rfl⟩
      ⟨parent, .inr (h.sent_of_released hparent), rfl⟩ hhash
    obtain rfl : seen = parent := Header.encode_injective hsame
    exact follows

end Released
end ChainSync.HeaderFill
