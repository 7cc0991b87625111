import Mathlib.Data.Nat.Log
import Mathlib.Order.Bounds.Basic
import ChainSync.Ancestor
set_option autoImplicit false

/-!
Bisecting for the last block that two chains share. Whatever the answers, each one narrows the
search; where they are right, so is what the search comes to.
-/

namespace ChainSync

namespace Aim

/-- The blocks looked at lie between the two ends. -/
def Wide (height : Nat) : Aim → Prop
  | .middle low high _ => low + 1 < high ∧ high ≤ height
  | _ => True

/-- How many blocks may have to be looked at, this one included. -/
def budget (height : Nat) : Aim → Nat
  | .top => Nat.clog 2 height + 2
  | .middle low high _ => Nat.clog 2 (high - low) + 1
  | .genesis => 1

variable {height low high : Nat} {known copy : Option Header} {aim next : Aim}

theorem number_le (wide : aim.Wide height) : aim.number height ≤ height := by
  cases aim with
  | top => exact le_rfl
  | middle low high known =>
    obtain ⟨apart, bound⟩ := wide
    simp only [number]
    omega
  | genesis => exact Nat.zero_le _

theorem narrow_wide (bound : high ≤ height) (looks : narrow height low high known = .look next) :
    next.Wide height := by
  unfold narrow at looks
  split at looks
  · cases looks
    exact ⟨‹_›, bound⟩
  · split at looks
    · cases looks
    · split at looks
      · cases looks
      · cases looks
        trivial

theorem narrow_budget {width : Nat} (fits : high - low ≤ width)
    (looks : narrow height low high known = .look next) :
    next.budget height ≤ Nat.clog 2 width + 1 := by
  unfold narrow at looks
  split at looks
  · cases looks
    exact Nat.succ_le_succ (Nat.clog_mono_right 2 fits)
  · split at looks
    · cases looks
    · split at looks
      · cases looks
      · cases looks
        exact Nat.succ_le_succ (Nat.zero_le _)

theorem learn_wide (wide : aim.Wide height) (looks : aim.learn height copy = .look next) :
    next.Wide height := by
  have number := number_le wide
  cases aim with
  | top =>
    cases copy with
    | some header => cases looks
    | none => exact narrow_wide le_rfl looks
  | middle low high known =>
    cases copy with
    | some header => exact narrow_wide wide.2 looks
    | none => exact narrow_wide number looks
  | genesis => cases copy <;> cases looks

/-- Each answer halves what is left. -/
theorem learn_budget (wide : aim.Wide height) (looks : aim.learn height copy = .look next) :
    next.budget height < aim.budget height := by
  cases aim with
  | top =>
    cases copy with
    | some header => cases looks
    | none => exact Nat.lt_succ_of_le (narrow_budget (Nat.sub_le height 0) looks)
  | middle low high known =>
    obtain ⟨apart, -⟩ := wide
    have halved : Nat.clog 2 (high - low) = Nat.clog 2 ((high - low + 2 - 1) / 2) + 1 :=
      Nat.clog_of_two_le (by omega) (by omega)
    simp only [budget, halved]
    refine Nat.lt_succ_of_le ?_
    cases copy with
    | some header => exact narrow_budget (by simp only [number]; omega) looks
    | none => exact narrow_budget (by simp only [number]; omega) looks
  | genesis => cases copy <;> cases looks

end Aim

section Right

variable {shared : Nat → Prop} {mine : List Header} {height low high : Nat}
  {known copy : Option Header} {aim : Aim}

/-- The last shared block lies between the two ends. -/
structure Aim.Between (shared : Nat → Prop) (mine : List Header) (low high : Nat)
    (known : Option Header) : Prop where
  le : low ≤ high
  above : ¬ shared high
  below : ∀ h, known = some h → mine[low]? = some h ∧ shared low
  start : known = none → low = 0

/-- What is known by the time a block is looked at. -/
def Aim.Sound (shared : Nat → Prop) (mine : List Header) : Aim → Prop
  | .top => True
  | .middle low high known => Between shared mine low high known
  | .genesis => ¬ shared 1

/-- What a search comes to agrees with the two chains. -/
def Verdict.Right (shared : Nat → Prop) (mine : List Header) (height : Nat) : Verdict → Prop
  | .look aim => aim.Sound shared mine
  | .found header => ∃ n, mine[n]? = some header ∧ IsGreatest {n | n ≤ height ∧ shared n} n
  | .mismatch => ¬ shared 0

namespace Aim

variable (closed : Antitone shared)
include closed

theorem narrow_right (between : Between shared mine low high known) (bound : high ≤ height) :
    (narrow height low high known).Right shared mine height := by
  have above : ∀ n, shared n → n < high := fun n hn =>
    Nat.lt_of_not_le fun hle => between.above (closed hle hn)
  unfold narrow
  split
  · exact between
  · rename_i met
    cases known with
    | some header =>
      obtain ⟨ours, here⟩ := between.below header rfl
      have low_lt := above low here
      refine ⟨low, ours, ⟨by omega, here⟩, fun n hn => ?_⟩
      have n_lt := above n hn.2
      omega
    | none =>
      have zero := between.start rfl
      have one : high ≤ 1 := by omega
      dsimp only
      split
      · rename_i lowest
        obtain rfl : high = 0 := by omega
        exact between.above
      · exact fun h => between.above (closed one h)

theorem learn_right (wide : aim.Wide height) (sound : aim.Sound shared mine)
    (here : ∀ h, copy = some h → mine[aim.number height]? = some h ∧ shared (aim.number height))
    (gone : copy = none → ¬ shared (aim.number height)) :
    (aim.learn height copy).Right shared mine height := by
  have number := number_le wide
  cases aim with
  | top =>
    cases copy with
    | some header =>
      obtain ⟨ours, last⟩ := here header rfl
      exact ⟨height, ours, ⟨le_rfl, last⟩, fun n hn => hn.1⟩
    | none =>
      refine narrow_right closed ⟨Nat.zero_le _, gone rfl, ?_, fun _ => rfl⟩ le_rfl
      rintro h ⟨⟩
  | middle low high known =>
    obtain ⟨apart, bound⟩ := wide
    have low_le : low ≤ (middle low high known).number height := Nat.le_add_right ..
    have le_high : (middle low high known).number height ≤ high := by
      simp only [Aim.number]
      omega
    cases copy with
    | some header =>
      refine narrow_right closed ⟨le_high, sound.above, ?_, ?_⟩ bound
      · rintro h ⟨⟩
        exact here header rfl
      · rintro ⟨⟩
    | none =>
      exact narrow_right closed ⟨low_le, gone rfl, sound.below, sound.start⟩ number
  | genesis =>
    cases copy with
    | some header =>
      obtain ⟨ours, first⟩ := here header rfl
      refine ⟨0, ours, ⟨Nat.zero_le _, first⟩, fun n hn => ?_⟩
      exact Nat.le_of_lt_succ (Nat.lt_of_not_le fun hle => sound (closed hle hn.2))
    | none => exact gone rfl

end Aim
end Right
end ChainSync
