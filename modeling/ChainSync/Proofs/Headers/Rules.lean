import Mathlib.Algebra.Group.Nat.Defs
import Mathlib.Data.List.Chain
import ChainSync.Consensus
set_option autoImplicit false

/-!
The rules for a header behind its parent, in whole numbers. The engines reckon in words of 64 and
256 bits; none of their operations leaves the words, so that what they accept is what the rules say.
-/

namespace ChainSync.Engine

section Words

/-- The number behind another one, where there is one. -/
theorem succ?_eq_some {n m : UInt64} : succ? n = some m ↔ m.toNat = n.toNat + 1 := by
  have hn := n.toNat_lt
  have hm := m.toNat_lt
  have sum : (n + 1).toNat = (n.toNat + 1) % 2 ^ 64 := UInt64.toNat_add n 1
  unfold succ?
  split
  · rename_i wrapped
    rw [wrapped, UInt64.toNat_zero] at sum
    simp only [reduceCtorEq, false_iff]
    omega
  · rename_i fits
    have nonzero : (n + 1).toNat ≠ 0 := fun zero => fits (UInt64.toNat_inj.mp zero)
    rw [Option.some_inj, ← UInt64.toNat_inj]
    omega

theorem toNat_earliestTimestamp (period : UInt64) (parent : Header) :
    (earliestTimestamp period parent).toNat =
      min (parent.timestamp.toNat + period.toNat) (2 ^ 64 - 1) := by
  have ht := parent.timestamp.toNat_lt
  have hp := period.toNat_lt
  have sum : (parent.timestamp + period).toNat =
      (parent.timestamp.toNat + period.toNat) % 2 ^ 64 := UInt64.toNat_add ..
  simp only [earliestTimestamp, UInt64.lt_iff_toNat_lt]
  split
  · rw [show (0xffffffffffffffff : UInt64).toNat = 2 ^ 64 - 1 from rfl]
    omega
  · omega

variable (h parent : Header)

theorem toNat_quotient : (parent.difficulty.bits / difficultyDivisor).toNat =
    parent.difficulty.toNat / 2048 := by
  rw [BitVec.toNat_udiv]
  rfl

/-- Divided first, the difficulty has room for the factor. -/
theorem product_fits : BitVec.umulOverflow (parent.difficulty.bits / difficultyDivisor)
    maxDifficultySteps = false := by
  have small := parent.difficulty.toNat_lt
  have steps : maxDifficultySteps.toNat = 99 := rfl
  rw [BitVec.umulOverflow, toNat_quotient, steps, decide_eq_false_iff_not]
  rw [Nat.pow_eq] at small
  omega

theorem toNat_maxDifficultyChange :
    (maxDifficultyChange parent).toNat = 99 * (parent.difficulty.toNat / 2048) := by
  have fits := product_fits parent
  rw [BitVec.umulOverflow, decide_eq_false_iff_not, Nat.not_le, toNat_quotient] at fits
  rw [maxDifficultyChange, BitVec.toNat_mul, toNat_quotient, Nat.mod_eq_of_lt fits, Nat.mul_comm]
  rfl

theorem toNat_difficultyChange : (difficultyChange h parent).toNat =
    ((h.difficulty.toNat : Int) - parent.difficulty.toNat).natAbs := by
  unfold difficultyChange U256.toNat
  split
  · rename_i rises
    rw [BitVec.toNat_sub_of_le (BitVec.le_of_lt rises)]
    have := BitVec.lt_def.mp rises
    omega
  · rename_i falls
    have hle := BitVec.not_lt.mp falls
    rw [BitVec.toNat_sub_of_le hle]
    have := BitVec.le_def.mp hle
    omega

end Words

section Rules

variable (e : Engine) (parent h : Header)

/-- What every engine asks of a header. -/
structure Links : Prop where
  number : h.number.toNat = parent.number.toNat + 1
  parentHash : h.parentHash = parent.hash
  gas : h.gasUsed.toNat ≤ h.gasLimit.toNat

/-- What an engine asks beyond that, in whole numbers. -/
def Permits : Prop :=
  match e with
  | .ethash minimum =>
    parent.timestamp.toNat < h.timestamp.toNat ∧ h.extraData.length ≤ 32 ∧
      minimum.toNat ≤ h.difficulty.toNat ∧
      ((h.difficulty.toNat : Int) - parent.difficulty.toNat).natAbs ≤
        99 * (parent.difficulty.toNat / 2048)
  | .clique period _ =>
    min (parent.timestamp.toNat + period.toNat) (2 ^ 64 - 1) ≤ h.timestamp.toNat ∧
      97 ≤ h.extraData.length ∧ (h.difficulty.toNat = 1 ∨ h.difficulty.toNat = 2)

/-- A check passes if its fault is not there and those behind it pass. -/
theorem ite_error_eq_ok {p : Prop} [Decidable p] {err : ConsensusError}
    {rest : Except ConsensusError Unit} :
    (if p then .error err else rest) = .ok () ↔ ¬ p ∧ rest = .ok () := by
  split <;> simp [*]

theorem checkLink_eq_ok : checkLink h parent = .ok () ↔ Links parent h := by
  simp only [checkLink, ite_error_eq_ok, not_not, succ?_eq_some, gt_iff_lt, UInt64.not_lt,
    UInt64.le_iff_toNat_le, and_true]
  constructor
  · rintro ⟨number, hash, gas⟩
    exact ⟨number, hash, gas⟩
  · rintro ⟨number, hash, gas⟩
    exact ⟨number, hash, gas⟩

theorem checkEthash_eq_ok (minimum : UInt64) :
    checkEthash minimum h parent = .ok () ↔ Permits (.ethash minimum) parent h := by
  simp only [checkEthash, ite_error_eq_ok]
  simp only [Permits, maxExtraData, gt_iff_lt, UInt64.not_le, UInt64.lt_iff_toNat_lt, BitVec.not_lt,
    BitVec.le_def, toNat_difficultyChange, toNat_maxDifficultyChange, Nat.not_lt, and_true]

theorem checkClique_eq_ok (period epoch : UInt64) :
    checkClique period h parent = .ok () ↔ Permits (.clique period epoch) parent h := by
  have turns : ¬ (h.difficulty.toNat ≠ 2 ∧ h.difficulty.toNat ≠ 1) ↔
      h.difficulty.toNat = 1 ∨ h.difficulty.toNat = 2 := by omega
  simp only [checkClique, ite_error_eq_ok]
  simp only [Permits, minCliqueExtraData, UInt64.not_lt, UInt64.le_iff_toNat_le,
    toNat_earliestTimestamp, Nat.not_lt, turns, and_true, Nat.reduceAdd]

theorem verifyHeader_eq_ok :
    e.verifyHeader h parent = .ok () ↔ Links parent h ∧ e.Permits parent h := by
  rw [← checkLink_eq_ok]
  unfold verifyHeader
  cases checkLink h parent with
  | error err => simp
  | ok u =>
    cases e with
    | ethash minimum => simp [checkEthash_eq_ok]
    | clique period epoch => simp [checkClique_eq_ok _ _ period epoch]

/-- The operations of the rules give what they give in whole numbers: none of them leaves its word,
and the sum of the timestamp and the period stops at the greatest one. -/
structure Exact : Prop where
  next : ∀ n, succ? parent.number = some n ↔ n.toNat = parent.number.toNat + 1
  product :
    BitVec.umulOverflow (parent.difficulty.bits / difficultyDivisor) maxDifficultySteps = false
  rise : parent.difficulty.bits < h.difficulty.bits →
    BitVec.usubOverflow h.difficulty.bits parent.difficulty.bits = false
  fall : ¬ parent.difficulty.bits < h.difficulty.bits →
    BitVec.usubOverflow parent.difficulty.bits h.difficulty.bits = false
  step : (maxDifficultyChange parent).toNat = 99 * (parent.difficulty.toNat / 2048)
  change : (difficultyChange h parent).toNat =
    ((h.difficulty.toNat : Int) - parent.difficulty.toNat).natAbs
  earliest : ∀ period, (earliestTimestamp period parent).toNat =
    min (parent.timestamp.toNat + period.toNat) (2 ^ 64 - 1)

theorem exact_rules : Exact parent h where
  next _ := succ?_eq_some
  product := product_fits parent
  rise above := by
    have := BitVec.lt_def.mp above
    simp only [BitVec.usubOverflow, decide_eq_false_iff_not]
    omega
  fall below := by
    have := BitVec.le_def.mp (BitVec.not_lt.mp below)
    simp only [BitVec.usubOverflow, decide_eq_false_iff_not]
    omega
  step := toNat_maxDifficultyChange parent
  change := toNat_difficultyChange h parent
  earliest period := toNat_earliestTimestamp period parent

end Rules

section Runs

variable {e : Engine} {parent : Header} {headers : List Header}

theorem heights_of_run (run : (parent :: headers).IsChain fun a b => e.verifyHeader b a = .ok ()) :
    (parent :: headers).map Header.height = List.range' parent.height (headers.length + 1) := by
  induction headers generalizing parent with
  | nil => rfl
  | cons h rest ih =>
    obtain ⟨follows, run⟩ := List.isChain_cons_cons.mp run
    have height : h.height = parent.height + 1 := ((verifyHeader_eq_ok ..).mp follows).1.number
    rw [List.map_cons, ih run, height, List.length_cons, ← List.range'_succ]

theorem timestamps_of_run {minimum : UInt64}
    (run : headers.IsChain fun a b => (ethash minimum).verifyHeader b a = .ok ()) :
    headers.Pairwise (·.timestamp.toNat < ·.timestamp.toNat) := by
  have rising : headers.IsChain (·.timestamp.toNat < ·.timestamp.toNat) :=
    run.imp fun a b follows => ((verifyHeader_eq_ok (ethash minimum) a b).mp follows).2.1
  have : IsTrans Header (·.timestamp.toNat < ·.timestamp.toNat) := ⟨fun _ _ _ => Nat.lt_trans⟩
  exact List.isChain_iff_pairwise.mp rising

/-- An engine accepts exactly the headers that its rules permit in whole numbers, reckoning without
overflow at either end of the words. So numbers rise by one along a run of headers, the timestamps
of ethash rise strictly, and no header stands behind the greatest number. -/
theorem header_rules_are_exact (e : Engine) (parent h : Header) :
    Exact parent h ∧
      (e.verifyHeader h parent = .ok () ↔ Links parent h ∧ e.Permits parent h) ∧
      (parent.height = 2 ^ 64 - 1 → e.verifyHeader h parent ≠ .ok ()) ∧
      ∀ headers : List Header,
        ((parent :: headers).IsChain fun a b => e.verifyHeader b a = .ok ()) →
        (parent :: headers).map Header.height = List.range' parent.height (headers.length + 1) ∧
          ∀ minimum, e = .ethash minimum →
            (parent :: headers).Pairwise (·.timestamp.toNat < ·.timestamp.toNat) := by
  refine ⟨exact_rules parent h, verifyHeader_eq_ok e parent h, fun greatest accepted => ?_,
    fun headers run => ⟨heights_of_run run, ?_⟩⟩
  · have number := ((verifyHeader_eq_ok ..).mp accepted).1.number
    have height : parent.number.toNat = 2 ^ 64 - 1 := greatest
    have small := h.number.toNat_lt
    omega
  · rintro minimum rfl
    exact timestamps_of_run run

/-- The difficulty goes up by as much as it may and comes back; the greatest number is reached. -/
theorem header_rules_are_exact_up_and_down :
    let origin : Header := { difficulty := .ofNat 262144 }
    let a : Header := { number := 1, timestamp := 1, difficulty := .ofNat 274816, parentHash :=
      0x3cd90d2e187aecd11e0833e45cc4e19d79b97b43990dcc5bf9ae1ec5a8cd1dde#256 }
    let b : Header := { number := 2, timestamp := 16, difficulty := .ofNat 262144, parentHash :=
      0x0bcf8d62853d6a9968ac082453ecfcb25ec11c4b383610f19aa9db224cc28ebd#256 }
    let top : Header := { number := 0xffffffffffffffff }
    ((origin :: [a, b]).IsChain fun a b => default.verifyHeader b a = .ok ()) ∧
      (origin :: [a, b]).map Header.height = [0, 1, 2] ∧
      (origin :: [a, b]).Pairwise (·.timestamp.toNat < ·.timestamp.toNat) ∧
      top.height = 2 ^ 64 - 1 ∧ default.verifyHeader { parentHash := top.hash } top ≠ .ok () := by
  intro origin a b top
  have run : (origin :: [a, b]).IsChain fun a b => default.verifyHeader b a = .ok () := by
    decide +kernel
  obtain ⟨-, -, -, runs⟩ := header_rules_are_exact default origin a
  obtain ⟨heights, timestamps⟩ := runs [a, b] run
  obtain ⟨-, -, last, -⟩ := header_rules_are_exact default top { parentHash := top.hash }
  exact ⟨run, heights, timestamps minimumDifficulty rfl, rfl, last rfl⟩

end Runs
end ChainSync.Engine
