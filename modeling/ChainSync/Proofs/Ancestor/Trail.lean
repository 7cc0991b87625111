import ChainSync.Proofs.Ancestor.Inquiry
import ChainSync.Proofs.Ancestor.Turn
set_option autoImplicit false

/-!
Which blocks a search asks for, whatever it is told. Each answer halves what is left, so that they
are few; as long as nothing shared is known, they are the height, its half, the half of that, and
so on, with genesis at the end.
-/

namespace ChainSync

open Fetch

/-- The height, its half, the half of that, and so on: `n` of them. -/
def halvings (height n : Nat) : List Nat := (List.range n).map (height / 2 ^ ·)

theorem length_halvings (height n : Nat) : (halvings height n).length = n := by
  simp [halvings]

theorem halvings_succ (height n : Nat) :
    halvings height (n + 1) = halvings height n ++ [height / 2 ^ n] := by
  simp [halvings, List.range_succ]

theorem log_of_div_eq_one {height n : Nat} (one : height / 2 ^ n = 1) : Nat.log 2 height = n := by
  have positive : 0 < 2 ^ n := Nat.two_pow_pos n
  have bounds := (Nat.div_eq_iff positive).mp one
  refine Nat.log_eq_of_pow_le_of_lt_pow (by omega) ?_
  rw [Nat.pow_succ]
  omega

namespace Aim

/-- The blocks looked at so far, the last one included. -/
def Trail (height : Nat) (looked : List Nat) : Aim → Prop
  | .top => looked = [height]
  | .middle low high known =>
    looked.length + Nat.clog 2 (high - low) ≤ Nat.clog 2 height + 2 ∧
      (known = none → low = 0 ∧ ∃ n, high = height / 2 ^ n ∧ looked = halvings height (n + 2))
  | .genesis => height ≠ 0 ∧ looked = halvings height (Nat.log 2 height + 1) ++ [0]

/-- One more block than it takes to bisect what is below the height, or all the halves of a height
that is a power of two, and genesis. -/
def Few (height : Nat) (looked : List Nat) : Prop :=
  looked.length ≤ Nat.clog 2 height + 1 ∨
    ∃ k, height = 2 ^ k ∧ looked = halvings height (k + 1) ++ [0]

variable {height low high : Nat} {known copy : Option Header} {aim next : Aim} {looked : List Nat}

theorem Trail.few (wide : aim.Wide height) (trail : aim.Trail height looked) :
    Few height looked := by
  cases aim with
  | top =>
    obtain rfl : looked = [height] := trail
    exact .inl (Nat.le_add_left 1 _)
  | middle low high known =>
    obtain ⟨apart, -⟩ := wide
    obtain ⟨left, -⟩ := trail
    have positive : 0 < Nat.clog 2 (high - low) := Nat.clog_pos Nat.one_lt_two (by omega)
    exact .inl (by omega)
  | genesis =>
    obtain ⟨above, rfl⟩ := trail
    have le : 2 ^ Nat.log 2 height ≤ height := Nat.pow_log_le_self 2 above
    rcases Nat.eq_or_lt_of_le le with power | less
    · exact .inr ⟨Nat.log 2 height, power.symm, rfl⟩
    · have lt : Nat.log 2 height < Nat.clog 2 height :=
        (Nat.lt_clog_iff_pow_lt Nat.one_lt_two).mpr less
      refine .inl ?_
      rw [List.length_append, length_halvings, List.length_singleton]
      omega

theorem narrow_trail (left : looked.length + Nat.clog 2 (high - low) ≤ Nat.clog 2 height + 1)
    (positive : height ≠ 0 → 0 < high)
    (unknown : known = none →
      low = 0 ∧ ∃ n, high = height / 2 ^ n ∧ looked = halvings height (n + 1))
    (looks : narrow height low high known = .look next) :
    next.Trail height (looked ++ [next.number height]) := by
  unfold narrow at looks
  split at looks
  · cases looks
    refine ⟨by rw [List.length_append, List.length_singleton]; omega, fun nothing => ?_⟩
    obtain ⟨rfl, n, rfl, rfl⟩ := unknown nothing
    refine ⟨rfl, n, rfl, ?_⟩
    have half : (middle 0 (height / 2 ^ n) known).number height = height / 2 ^ (n + 1) := by
      rw [number, Nat.sub_zero, Nat.zero_add, Nat.div_div_eq_div_mul, Nat.pow_succ]
    rw [half, ← halvings_succ]
  · rename_i met
    cases known with
    | some header => cases looks
    | none =>
      obtain ⟨rfl, n, rfl, rfl⟩ := unknown rfl
      dsimp only at looks
      split at looks
      · cases looks
      · rename_i above
        cases looks
        have one : height / 2 ^ n = 1 := by
          have := positive above
          omega
        exact ⟨above, by rw [log_of_div_eq_one one, number]⟩

theorem learn_trail (wide : aim.Wide height) (trail : aim.Trail height looked)
    (looks : aim.learn height copy = .look next) :
    next.Trail height (looked ++ [next.number height]) := by
  cases aim with
  | top =>
    obtain rfl : looked = [height] := trail
    cases copy with
    | some header => cases looks
    | none =>
      refine narrow_trail (by simp [Nat.add_comm]) Nat.pos_of_ne_zero
        (fun _ => ⟨rfl, 0, ?_, ?_⟩) looks
      · rw [Nat.pow_zero, Nat.div_one]
      · simp [halvings]
  | middle low high known =>
    obtain ⟨apart, -⟩ := wide
    obtain ⟨left, unknown⟩ := trail
    have halved : Nat.clog 2 (high - low) = Nat.clog 2 ((high - low + 2 - 1) / 2) + 1 :=
      Nat.clog_of_two_le (by omega) (by omega)
    have within (width : Nat) (fits : width ≤ (high - low + 2 - 1) / 2) :
        looked.length + Nat.clog 2 width ≤ Nat.clog 2 height + 1 := by
      have := Nat.clog_mono_right 2 fits
      omega
    cases copy with
    | some header =>
      refine narrow_trail (within _ ?_) (fun _ => ?_) ?_ looks
      · simp only [number]
        omega
      · omega
      · rintro ⟨⟩
    | none =>
      refine narrow_trail (within _ ?_) (fun _ => ?_) (fun nothing => ?_) looks
      · simp only [number]
        omega
      · simp only [number]
        omega
      · obtain ⟨rfl, n, rfl, rfl⟩ := unknown nothing
        refine ⟨rfl, n + 1, ?_, rfl⟩
        rw [number, Nat.sub_zero, Nat.zero_add, Nat.div_div_eq_div_mul, Nat.pow_succ]
  | genesis => cases copy <;> cases looks

end Aim

namespace Inquiry

variable {σ : Type} {peer : SyncPeer} {localHead : Header} {maxForkAncestry : Nat}

/-- What a search sends at an event. -/
def sends (x : Inquiry σ) (event : Event σ) : List Call :=
  match event with
  | .signal .. => (x.apply event).hub.outbox.drop x.hub.outbox.length
  | .meanwhile _ => []

/-- All that a search sends as events go by. -/
def sent : Inquiry σ → List (Event σ) → List Call
  | _, [] => []
  | x, event :: events => x.sends event ++ (x.apply event).sent events

/-- The calls ask the peer for the blocks of these numbers, each for one. -/
def AskFor (peer : PeerId) (calls : List Call) (numbers : List Nat) : Prop :=
  calls.map (fun call => (call.peer, call.request)) =
    numbers.map fun n => (peer, .headers (.single (.number n)))

/-- What a search has come to after it looked at these blocks. -/
inductive Counted (peer : SyncPeer) (localHead : Header) (maxForkAncestry : Nat)
    (looked : List Nat) : Except SyncError (AncestorSearch ⊕ Ancestor) → Prop where
  | waits {s : AncestorSearch} (seeks : s.Seeks peer localHead maxForkAncestry)
      (probes : s.probes = looked.length)
      (trail : s.aim.Trail (AncestorSearch.height peer localHead) looked) :
    Counted peer localHead maxForkAncestry looked (.ok (.inl s))
  | found {a : Ancestor} (probes : a.probes = looked.length)
      (few : Aim.Few (AncestorSearch.height peer localHead) looked) :
    Counted peer localHead maxForkAncestry looked (.ok (.inr a))
  | failed {err : SyncError} (few : Aim.Few (AncestorSearch.height peer localHead) looked) :
    Counted peer localHead maxForkAncestry looked (.error err)

theorem Counted.few {looked : List Nat} {standing : Except SyncError (AncestorSearch ⊕ Ancestor)}
    (counted : Counted peer localHead maxForkAncestry looked standing) :
    Aim.Few (AncestorSearch.height peer localHead) looked := by
  cases counted with
  | waits seeks probes trail => exact trail.few seeks.wide
  | found probes few => exact few
  | failed few => exact few

/-- A block that is asked for is looked at; if it cannot be asked for, that is the end. -/
theorem counted_of_asked {h : Hub σ} {cancelled : Bool} {probes : Nat} {aim : Aim}
    {looked : List Nat} {out : Hub σ × Except SyncError (AncestorSearch ⊕ Ancestor)}
    (asked : AncestorSearch.Asked h cancelled peer localHead maxForkAncestry probes aim out)
    (wide : aim.Wide (AncestorSearch.height peer localHead)) (all : probes = looked.length)
    (before : Aim.Few (AncestorSearch.height peer localHead) looked)
    (trail : aim.Trail (AncestorSearch.height peer localHead)
      (looked ++ [aim.number (AncestorSearch.height peer localHead)])) :
    ∃ more, AskFor peer.id (out.1.outbox.drop h.outbox.length) more ∧
      Counted peer localHead maxForkAncestry (looked ++ more) out.2 := by
  cases asked with
  | sent outbox receiver request =>
    refine ⟨[aim.number (AncestorSearch.height peer localHead)], ?_,
      .waits ⟨rfl, rfl, rfl, wide, receiver, request⟩ ?_ trail⟩
    · simp [AskFor, outbox, receiver, request]
    · simp [all]
  | refused => exact ⟨[], by simp [AskFor], .failed (by simpa using before)⟩
  | givenUp wish => exact ⟨[], by simp [AskFor], .failed (by simpa using before)⟩

theorem apply_counted {x : Inquiry σ} {looked : List Nat}
    (counted : Counted peer localHead maxForkAncestry looked x.standing) (event : Event σ) :
    ∃ more, AskFor peer.id (x.sends event) more ∧
      Counted peer localHead maxForkAncestry (looked ++ more) (x.apply event).standing := by
  obtain ⟨h, standing, heard⟩ := x
  cases event with
  | meanwhile hub =>
    refine ⟨[], rfl, ?_⟩
    rw [List.append_nil]
    cases counted with
    | waits seeks probes trail => exact .waits seeks probes trail
    | found probes few => exact .found probes few
    | failed few => exact .failed few
  | signal cancelled view signal =>
    have few := counted.few
    cases counted with
    | found probes few => exact ⟨[], by simp [AskFor, sends, apply], by simpa using .found probes few⟩
    | failed few => exact ⟨[], by simp [AskFor, sends, apply], by simpa using .failed few⟩
    | @waits s seeks probes trail =>
      have turned := s.step_turn h cancelled view signal
      simp only [sends, apply]
      generalize s.step h cancelled view signal = out at turned
      -- whatever is not another question sends nothing
      have silent {h' : Hub σ} (outbox : h'.outbox = h.outbox) :
          AskFor peer.id (h'.outbox.drop h.outbox.length) [] := by simp [AskFor, outbox]
      cases turned with
      | waits other => exact ⟨[], silent rfl, by simpa using .waits seeks probes trail⟩
      | givenUp outbox wish => exact ⟨[], silent outbox, by simpa using .failed few⟩
      | refused outbox => exact ⟨[], silent outbox, by simpa using .failed few⟩
      | stumbled outbox stumbles => exact ⟨[], silent outbox, by simpa using .failed few⟩
      | found outbox learns last near =>
        exact ⟨[], silent outbox, by simpa using .found probes few⟩
      | @looks h' copy aim out outbox learns next asked =>
        rw [seeks.peer_eq, seeks.head_eq] at next
        rw [seeks.peer_eq, seeks.head_eq, seeks.limit_eq] at asked
        rw [← outbox]
        exact counted_of_asked asked (Aim.learn_wide seeks.wide next) probes few
          (Aim.learn_trail seeks.wide trail next)

theorem run_counted {x : Inquiry σ} {looked : List Nat}
    (counted : Counted peer localHead maxForkAncestry looked x.standing)
    (events : List (Event σ)) :
    ∃ more, AskFor peer.id (x.sent events) more ∧
      Counted peer localHead maxForkAncestry (looked ++ more) (x.run events).standing := by
  induction events generalizing x looked with
  | nil => exact ⟨[], rfl, by rwa [List.append_nil]⟩
  | cons event events ih =>
    obtain ⟨now, asked, counted⟩ := apply_counted counted event
    obtain ⟨later, asked', counted⟩ := ih counted
    refine ⟨now ++ later, ?_, ?_⟩
    · simp only [AskFor, sent, List.map_append] at asked asked' ⊢
      rw [asked, asked']
    · rwa [List.append_assoc] at counted

theorem begin_counted (h : Hub σ) (cancelled : Bool) (peer : SyncPeer) (localHead : Header)
    (maxForkAncestry : Nat) :
    let x := Inquiry.begin h cancelled peer localHead maxForkAncestry
    ∃ more, AskFor peer.id (x.hub.outbox.drop h.outbox.length) more ∧
      Counted peer localHead maxForkAncestry more x.standing := by
  have asked := AncestorSearch.probe_asks_or_fails h cancelled peer localHead maxForkAncestry 0 .top
  have few : Aim.Few (AncestorSearch.height peer localHead) [] := .inl (Nat.zero_le _)
  exact counted_of_asked asked trivial rfl few rfl

end Inquiry

/-- Whatever it is told, a search asks its peer for single blocks, and for at most one more than it
takes to bisect what is below the lower head. Only if that height is a power of two may there be
another one: where neither it nor any of its halves is known here, all of them are asked for, and
genesis behind them. -/
theorem search_asks_for_few_blocks {σ : Type} (h : Hub σ) (cancelled : Bool) (peer : SyncPeer)
    (localHead : Header) (maxForkAncestry : Nat) (events : List (Inquiry.Event σ)) :
    let x := Inquiry.begin h cancelled peer localHead maxForkAncestry
    let sent := x.hub.outbox.drop h.outbox.length ++ x.sent events
    let lower := min localHead.height peer.info.head.toNat
    ∃ numbers : List Nat,
      sent.map (fun call => (call.peer, call.request)) =
        numbers.map (fun n => (peer.id, .headers (.single (.number n)))) ∧
      (sent.length ≤ Nat.clog 2 lower + 1 ∨
        ∃ k, lower = 2 ^ k ∧ numbers = halvings lower (k + 1) ++ [0]) ∧
      ∀ a, (x.run events).standing = .ok (.inr a) → a.probes = sent.length := by
  intro x sent lower
  obtain ⟨first, asked, counted⟩ := Inquiry.begin_counted h cancelled peer localHead maxForkAncestry
  obtain ⟨others, asked', counted⟩ := Inquiry.run_counted counted events
  have requests : Inquiry.AskFor peer.id sent (first ++ others) := by
    simp only [Inquiry.AskFor, sent, List.map_append] at asked asked' ⊢
    rw [asked, asked']
  have length : sent.length = (first ++ others).length := by
    simpa using congrArg List.length requests
  refine ⟨first ++ others, requests, ?_, fun a found => ?_⟩
  · rw [length]
    exact counted.few
  · rw [found] at counted
    cases counted with
    | found probes few => rw [probes, length]

/-- Two chains of height two that share nothing but genesis: bisecting takes one probe, one more
makes two, and the search sends three. -/
theorem search_asks_for_every_half_of_two :
    let localHead : Header := { number := 2 }
    let theirs : Header := { number := 1, gasLimit := 1 }
    let remoteHead : Header := { number := 2, gasLimit := 1 }
    let peer : SyncPeer :=
      { info :=
          { id := 1, version := 68, headHash := remoteHead.hash, head := 2
            totalDifficulty := .ofNat 0, forkId := none, connection := 0 }
        state := .idle, inFlight := .const 0, throughput := .const 1, rtt := none
        consecutiveTimeouts := 0 }
    let h : Hub Unit := { peers := { config := {}, peers := [peer] }, board := ⟨{}, ()⟩ }
    let tell (ticket : Nat) (header : Header) (copy : Option Header) : Inquiry.Event Unit :=
      .signal false
        { currentHeader := .ok localHead, headerByHash := fun _ => .ok copy
          totalDifficulty := fun _ => .ok none }
        (.ended ticket (.answered (.headers [header])))
    let events := [tell 0 remoteHead none, tell 1 theirs none, tell 2 {} (some {})]
    let x := Inquiry.begin h false peer localHead 2
    let sent := x.hub.outbox ++ x.sent events
    sent.map (·.request) = [2, 1, 0].map (fun n => .headers (.single (.number n))) ∧
      (x.run events).call? = none ∧
      ¬ sent.length ≤ Nat.clog 2 (min localHead.height peer.info.head.toNat) + 1 := by
  decide +kernel

end ChainSync
