import Mathlib.Data.List.Chain
import ChainSync.Headers.Fill
import ChainSync.Proofs.Fetch.Cover
import ChainSync.Proofs.Headers.Rules
set_option autoImplicit false

/-!
The gaps of a segment, its origin with a skeleton of ascending heights behind it, and the runs of
headers that may fill one.
-/

namespace ChainSync

open Fetch

/-- The engine accepts the header behind the one before it. -/
def Engine.Follows (e : Engine) (parent h : Header) : Prop := e.verifyHeader h parent = .ok ()

theorem Engine.Follows.link {e : Engine} {parent h : Header} (follows : e.Follows parent h) :
    h.height = parent.height + 1 ∧ h.parentHash = parent.hash := by
  obtain ⟨links, -⟩ := (verifyHeader_eq_ok e parent h).mp follows
  exact ⟨links.number, links.parentHash⟩

theorem follow_of_firstFault {engine : Engine} {range : Range} {expected : Nat}
    {previous : Header} {headers : List Header}
    (hnone : firstFault engine range expected previous headers = none) :
    headers.map Header.height = List.range' expected headers.length ∧
      (previous :: headers).IsChain engine.Follows := by
  induction headers generalizing expected previous with
  | nil => exact ⟨rfl, .singleton _⟩
  | cons h rest ih =>
    unfold firstFault at hnone
    split at hnone
    · simp at hnone
    split at hnone
    · simp at hnone
    rename_i hheight
    split at hnone
    · simp at hnone
    split at hnone
    · simp at hnone
    rename_i hok
    obtain ⟨hheights, hchain⟩ := ih hnone
    refine ⟨?_, .cons_cons hok hchain⟩
    rw [List.map_cons, hheights, Decidable.not_not.mp hheight, List.length_cons, List.range'_succ]

theorem firstFault_of_follows {engine : Engine} {range : Range} {expected : Nat} {parent : Header}
    {headers : List Header} (linked : (parent :: headers).IsChain engine.Follows)
    (height : parent.height + 1 = expected) (fits : expected + headers.length ≤ range.stop) :
    firstFault engine range expected parent headers = none := by
  induction headers generalizing parent expected with
  | nil => rfl
  | cons h rest ih =>
    obtain ⟨follows, rest_linked⟩ := List.isChain_cons_cons.mp linked
    obtain ⟨hheight, hparent⟩ := follows.link
    rw [List.length_cons] at fits
    have inside : ¬ expected ≥ range.stop := by omega
    have next : firstFault engine range (expected + 1) h rest = none :=
      ih rest_linked (by omega) (by omega)
    have valid : engine.verifyHeader h parent = .ok () := follows
    rw [firstFault, if_neg inside, if_neg (by omega), if_neg (by simp [hparent]), valid]
    exact next

namespace HeaderFill

variable {origin : Header} {skeleton : List Header}

theorem gap_between {r : Range} (h : r ∈ gaps origin.height skeleton) :
    ∃ before opening closing behind,
      origin :: skeleton = before ++ opening :: closing :: behind ∧
        r = ⟨opening.height + 1, closing.height - opening.height⟩ := by
  induction skeleton generalizing origin with
  | nil => simp [gaps] at h
  | cons s rest ih =>
    rcases List.mem_cons.mp h with rfl | h
    · exact ⟨[], origin, s, rest, rfl, rfl⟩
    · obtain ⟨before, opening, closing, behind, heq, hr⟩ := ih h
      exact ⟨origin :: before, opening, closing, behind, by rw [heq]; rfl, hr⟩

theorem tiles_gaps_of_le (sorted : (origin :: skeleton).Pairwise (·.height ≤ ·.height)) :
    Tiles (origin.height + 1) (gaps origin.height skeleton)
      ((skeleton.getLastD origin).height + 1) := by
  induction skeleton generalizing origin with
  | nil => rfl
  | cons s rest ih =>
    have hle := (List.pairwise_cons.mp sorted).1 s (List.mem_cons_self ..)
    refine ⟨rfl, ?_⟩
    have hstop : origin.height + 1 + (s.height - origin.height) = s.height + 1 := by omega
    rw [List.getLastD_cons, Range.stop, hstop]
    exact ih (List.pairwise_cons.mp sorted).2

variable (ascending : (origin :: skeleton).Pairwise (·.height < ·.height))
include ascending

theorem tiles_gaps :
    Tiles (origin.height + 1) (gaps origin.height skeleton)
      ((skeleton.getLastD origin).height + 1) :=
  tiles_gaps_of_le (ascending.imp Nat.le_of_lt)

theorem origin_lt_of_gap {r : Range} (h : r ∈ gaps origin.height skeleton) :
    origin.height < r.start := by
  obtain ⟨before, opening, closing, behind, heq, rfl⟩ := gap_between h
  cases before with
  | nil =>
    rw [List.nil_append, List.cons.injEq] at heq
    simp [heq.1]
  | cons b before =>
    rw [List.cons_append, List.cons.injEq] at heq
    have hlt := (List.pairwise_cons.mp ascending).1 opening (by simp [heq.2])
    exact Nat.lt_succ_of_lt hlt

/-- The last position of a gap is the only one with an anchor. -/
theorem closing_of_gap {r : Range} (h : r ∈ gaps origin.height skeleton) {a : Header}
    (ha : a ∈ origin :: skeleton) (hle : r.start ≤ a.height)
    (hlt : a.height < r.start + r.count) : a.height = r.stop - 1 := by
  obtain ⟨before, opening, closing, behind, heq, rfl⟩ := gap_between h
  rw [heq] at ascending ha
  obtain ⟨-, hrest, hbefore⟩ := List.pairwise_append.mp ascending
  simp only [List.pairwise_cons, List.mem_cons, forall_eq_or_imp] at hrest hbefore
  simp only [List.mem_append, List.mem_cons] at ha
  rw [Range.stop]
  rcases ha with ha | rfl | rfl | ha
  · have := (hbefore a ha).1
    simp only at hle
    omega
  · simp only at hle
    omega
  · simp only at hle ⊢
    omega
  · have := hrest.2.1 a ha
    have := hrest.1.1
    simp only at hlt
    omega

theorem eq_of_height_eq {a b : Header} (ha : a ∈ origin :: skeleton) (hb : b ∈ origin :: skeleton)
    (h : a.height = b.height) : a = b := by
  have hinj := (List.pairwise_map.mpr (ascending.imp Nat.ne_of_lt) : List.Nodup
    ((origin :: skeleton).map Header.height))
  exact List.inj_on_of_nodup_map hinj ha hb h

theorem get?_anchors {n : Nat} {a : Header} :
    Positioned.get? ((origin :: skeleton).map fun h => (h.height, h)) n = some a ↔
      a ∈ origin :: skeleton ∧ a.height = n := by
  have hnodup : (((origin :: skeleton).map fun h => (h.height, h)).map Prod.fst).Nodup := by
    rw [List.map_map]
    exact List.pairwise_map.mpr (ascending.imp Nat.ne_of_lt)
  rw [Positioned.get?, Keyed.lookup_eq_some_iff hnodup, List.mem_map]
  constructor
  · rintro ⟨b, hb, heq⟩
    obtain ⟨rfl, rfl⟩ := Prod.mk.injEq .. |>.mp heq
    exact ⟨hb, rfl⟩
  · rintro ⟨ha, rfl⟩
    exact ⟨a, ha, rfl⟩

end HeaderFill
end ChainSync
