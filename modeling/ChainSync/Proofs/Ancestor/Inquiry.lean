import ChainSync.Proofs.Ancestor.Bisection
import ChainSync.Proofs.Ancestor.Shared
import ChainSync.Proofs.Headers.Skeleton
set_option autoImplicit false

/-!
A search for a common ancestor from its first question to its result, with a peer that answers from
its chain and a store that knows exactly ours.
-/

namespace ChainSync

open Fetch

/-- A search with the hub it acts on, and with the questions that came to an end: the number asked
for, and how it ended. -/
structure Inquiry (σ : Type) where
  hub : Hub σ
  standing : Except SyncError (AncestorSearch ⊕ Ancestor)
  heard : List (Nat × Ending) := []

namespace Inquiry

variable {σ : Type}

inductive Event (σ : Type) where
  | signal (cancelled : Bool) (view : ChainView) (signal : Signal)
  /-- What becomes of the hub while the search waits. -/
  | meanwhile (hub : Hub σ)

def begin (h : Hub σ) (cancelled : Bool) (peer : SyncPeer) (localHead : Header)
    (maxForkAncestry : Nat) : Inquiry σ :=
  let (hub, standing) := AncestorSearch.begin h cancelled peer localHead maxForkAncestry
  { hub, standing }

/-- The question that a signal ends. -/
def endOf (s : AncestorSearch) : Signal → List (Nat × Ending)
  | .ended ticket ending =>
    if ticket = s.query.call.ticket then
      [(s.aim.number (AncestorSearch.height s.peer s.localHead), ending)]
    else []
  | _ => []

/-- A search that has ended does not go on. -/
def apply (x : Inquiry σ) : Event σ → Inquiry σ
  | .signal cancelled view signal =>
    match x.standing with
    | .ok (.inl s) =>
      let (hub, standing) := s.step x.hub cancelled view signal
      ⟨hub, standing, x.heard ++ endOf s signal⟩
    | _ => x
  | .meanwhile hub => { x with hub }

def run (x : Inquiry σ) (events : List (Event σ)) : Inquiry σ := events.foldl apply x

end Inquiry

namespace Inquiry

variable {σ : Type}

/-- The question that waits for an answer. -/
def call? (x : Inquiry σ) : Option Call :=
  match x.standing with
  | .ok (.inl s) => some s.query.call
  | _ => none

/-- What a search meets with whom nobody hinders: nobody gives up, the store and the peer tell what
they know, and the peer stays. -/
def Fair (mine theirs : List Header) (peer : PeerId) (x : Inquiry σ) : Event σ → Prop
  | .signal cancelled view signal =>
    cancelled = false ∧ view.Knows mine ∧ ∀ call ending, x.call? = some call →
      signal = .ended call.ticket ending → AnsweredFrom theirs call.request ending
  | .meanwhile hub => hub.peers.Serves peer .headers 0

/-- Nothing hinders the search at any of the events. -/
def Unhindered (mine theirs : List Header) (peer : PeerId) : Inquiry σ → List (Event σ) → Prop
  | _, [] => True
  | x, event :: events =>
    x.Fair mine theirs peer event ∧ Unhindered mine theirs peer (x.apply event) events

end Inquiry

/-- A peer that can be asked is asked for the header that the search aims at. -/
theorem AncestorSearch.probe_asks {σ : Type} {h : Hub σ} {peer : SyncPeer}
    (serves : h.peers.Serves peer.id .headers 1) (localHead : Header)
    (maxForkAncestry probes : Nat) (aim : Aim) :
    ∃ h' query, probe h false peer localHead maxForkAncestry probes aim =
        (h', .ok (.inl { peer, localHead, maxForkAncestry, probes := probes + 1, aim, query })) ∧
      h'.peers.Serves peer.id .headers 0 ∧ query.call.slot = ⟨peer.id, .headers⟩ ∧
      query.call.request = .headers (.single (.number (aim.number (height peer localHead)))) := by
  obtain ⟨h', query, asked, rest⟩ := HeaderQuery.ask_of_serves serves
    (.single (.number (aim.number (height peer localHead))))
  refine ⟨h', query, ?_, rest⟩
  simp only [probe, asked]

namespace Inquiry

variable {σ : Type} {mine theirs : List Header} {peer : SyncPeer} {localHead : Header}
  {maxForkAncestry : Nat}

/-- A search that waits for an answer that can settle it. -/
structure Pending (mine theirs : List Header) (peer : SyncPeer) (localHead : Header)
    (maxForkAncestry : Nat) (h : Hub σ) (answers : Nat) (s : AncestorSearch) : Prop where
  peer_eq : s.peer = peer
  head_eq : s.localHead = localHead
  limit_eq : s.maxForkAncestry = maxForkAncestry
  wide : s.aim.Wide (AncestorSearch.height peer localHead)
  sound : s.aim.Sound (Shares mine theirs) mine
  slot : s.query.call.slot = ⟨peer.id, .headers⟩
  request : s.query.call.request =
    .headers (.single (.number (s.aim.number (AncestorSearch.height peer localHead))))
  serves : h.peers.Serves peer.id .headers 0
  left : answers + s.aim.budget (AncestorSearch.height peer localHead) ≤
    Nat.clog 2 (AncestorSearch.height peer localHead) + 2

/-- What a search comes to when peer and store tell what they know. -/
inductive Truthful (mine theirs : List Header) (peer : SyncPeer) (localHead : Header)
    (maxForkAncestry : Nat) (h : Hub σ) (answers : Nat) :
    Except SyncError (AncestorSearch ⊕ Ancestor) → Prop where
  | waiting {s : AncestorSearch}
      (pending : Pending mine theirs peer localHead maxForkAncestry h answers s) :
    Truthful mine theirs peer localHead maxForkAncestry h answers (.ok (.inl s))
  | found {n : Nat} {a : Ancestor} (ours : mine[n]? = some a.header)
      (last : IsGreatest
        {n | n ≤ AncestorSearch.height peer localHead ∧ Shares mine theirs n} n)
      (near : localHead.height - n ≤ maxForkAncestry) :
    Truthful mine theirs peer localHead maxForkAncestry h answers (.ok (.inr a))
  | tooDeep {n : Nat} {reason : String}
      (last : IsGreatest
        {n | n ≤ AncestorSearch.height peer localHead ∧ Shares mine theirs n} n)
      (deep : maxForkAncestry < localHead.height - n) :
    Truthful mine theirs peer localHead maxForkAncestry h answers
      (.error (.ancestorNotFound peer.id reason))
  | apart {reason : String} (nothing : ¬ Shares mine theirs 0) :
    Truthful mine theirs peer localHead maxForkAncestry h answers
      (.error (.ancestorNotFound peer.id reason))

theorem probe_truthful {h : Hub σ} (serves : h.peers.Serves peer.id .headers 1) (probes : Nat)
    {aim : Aim} {answers : Nat} (wide : aim.Wide (AncestorSearch.height peer localHead))
    (sound : aim.Sound (Shares mine theirs) mine)
    (left : answers + aim.budget (AncestorSearch.height peer localHead) ≤
      Nat.clog 2 (AncestorSearch.height peer localHead) + 2) :
    let out := AncestorSearch.probe h false peer localHead maxForkAncestry probes aim
    Truthful mine theirs peer localHead maxForkAncestry out.1 answers out.2 := by
  obtain ⟨h', query, asked, serves, slot, request⟩ :=
    AncestorSearch.probe_asks serves localHead maxForkAncestry probes aim
  rw [asked]
  exact .waiting ⟨rfl, rfl, rfl, wide, sound, slot, request, serves, left⟩

variable (chains : Chains mine theirs localHead peer)
include chains

/-- An ancestor that is the last shared block is refused exactly if it is too far down. -/
theorem checkDepth_truthful {h : Hub σ} {answers : Nat} {s : AncestorSearch} {header : Header}
    (pending : Pending mine theirs peer localHead maxForkAncestry h answers s) {h' : Hub σ}
    {answers' : Nat} {n : Nat} (ours : mine[n]? = some header)
    (last : IsGreatest
      {n | n ≤ AncestorSearch.height peer localHead ∧ Shares mine theirs n} n) :
    Truthful mine theirs peer localHead maxForkAncestry h' answers'
      ((s.checkDepth header).map .inr) := by
  have height := chains.ours.heights n header ours
  obtain rfl := pending.peer_eq
  obtain rfl := pending.head_eq
  obtain rfl := pending.limit_eq
  unfold AncestorSearch.checkDepth
  dsimp only
  rw [height]
  split
  · exact .tooDeep last ‹_›
  · exact .found ours last (Nat.le_of_not_lt ‹_›)

theorem step_truthful {h : Hub σ} {answers : Nat} {s : AncestorSearch}
    (pending : Pending mine theirs peer localHead maxForkAncestry h answers s) {view : ChainView}
    (knows : view.Knows mine) (signal : Signal)
    (told : ∀ ending, signal = .ended s.query.call.ticket ending →
      AnsweredFrom theirs s.query.call.request ending) :
    let out := s.step h false view signal
    Truthful mine theirs peer localHead maxForkAncestry out.1
      (answers + (endOf s signal).length) out.2 := by
  cases signal with
  | woken => exact .waiting pending
  | deadline => exact .waiting pending
  | ended ticket ending =>
    by_cases own : ticket = s.query.call.ticket
    · subst own
      obtain rfl := told ending rfl _ pending.request
      obtain ⟨h', answered, serves⟩ := HeaderQuery.step_answered pending.slot pending.serves
        theirs[s.aim.number (AncestorSearch.height peer localHead)]?.toList
      obtain ⟨b, hb⟩ := chains.exists_theirs (Aim.number_le pending.wide)
      obtain ⟨copy, found, here, gone⟩ := chains.lookUp_eq knows hb
      have right := Aim.learn_right chains.closed pending.wide pending.sound here gone
      have less : ∀ aim, s.aim.learn (AncestorSearch.height peer localHead) copy = .look aim →
          aim.Wide (AncestorSearch.height peer localHead) ∧
            answers + 1 + aim.budget (AncestorSearch.height peer localHead) ≤
              Nat.clog 2 (AncestorSearch.height peer localHead) + 2 := fun aim looks => by
        have left := pending.left
        have budget := Aim.learn_budget pending.wide looks
        exact ⟨Aim.learn_wide pending.wide looks, by omega⟩
      simp only [AncestorSearch.step, answered, endOf, if_true, List.length_singleton,
        pending.peer_eq, pending.head_eq, pending.limit_eq, found]
      cases verdict : s.aim.learn (AncestorSearch.height peer localHead) copy with
      | look aim =>
        obtain ⟨wide, left⟩ := less aim verdict
        rw [verdict] at right
        exact probe_truthful serves s.probes wide right left
      | found header =>
        rw [verdict] at right
        obtain ⟨n, ours, last⟩ := right
        exact checkDepth_truthful chains pending ours last
      | mismatch =>
        rw [verdict] at right
        exact .apart right
    · simp only [AncestorSearch.step, HeaderQuery.step, own, if_false, endOf, List.length_nil]
      exact .waiting pending

theorem apply_truthful {x : Inquiry σ} {event : Event σ}
    (truthful : Truthful mine theirs peer localHead maxForkAncestry x.hub x.heard.length x.standing)
    (fair : x.Fair mine theirs peer.id event) :
    Truthful mine theirs peer localHead maxForkAncestry (x.apply event).hub
      (x.apply event).heard.length (x.apply event).standing := by
  obtain ⟨h, standing, heard⟩ := x
  cases truthful with
  | @waiting s pending =>
    cases event with
    | meanwhile hub => exact .waiting { pending with serves := fair }
    | signal cancelled view signal =>
      obtain ⟨rfl, knows, told⟩ := fair
      have stepped := step_truthful chains pending knows signal
        fun ending => told s.query.call ending rfl
      simp only [apply, List.length_append]
      exact stepped
  | found ours last near => cases event <;> exact .found ours last near
  | tooDeep last deep => cases event <;> exact .tooDeep last deep
  | apart nothing => cases event <;> exact .apart nothing

theorem run_truthful {x : Inquiry σ} {events : List (Event σ)}
    (truthful : Truthful mine theirs peer localHead maxForkAncestry x.hub x.heard.length x.standing)
    (unhindered : Unhindered mine theirs peer.id x events) :
    Truthful mine theirs peer localHead maxForkAncestry (x.run events).hub
      (x.run events).heard.length (x.run events).standing := by
  induction events generalizing x with
  | nil => exact truthful
  | cons event events ih => exact ih (apply_truthful chains truthful unhindered.1) unhindered.2

end Inquiry

/-- A search finds the last block that both chains share, unless that lies too far below the local
head or there is none, and this it tells. It asks the peer only for blocks that the peer has, and
it is done after at most so many answers as it takes to bisect what is below the lower head, and
two more. -/
theorem ancestor_is_last_shared_block {σ : Type} {mine theirs : List Header} {localHead : Header}
    {peer : SyncPeer} (chains : Chains mine theirs localHead peer) {h : Hub σ}
    (serves : h.peers.Serves peer.id .headers 1) (maxForkAncestry : Nat)
    (events : List (Inquiry.Event σ))
    (unhindered : Inquiry.Unhindered mine theirs peer.id
      (.begin h false peer localHead maxForkAncestry) events) :
    let x := (Inquiry.begin h false peer localHead maxForkAncestry).run events
    let lower := min localHead.height peer.info.head.toNat
    let shared := {n | n ≤ lower ∧ Shares mine theirs n}
    (∀ call, x.call? = some call → x.heard.length < Nat.clog 2 lower + 2 ∧
      ∃ n b, call.request = .headers (.single (.number n)) ∧ theirs[n]? = some b) ∧
    (x.call? = none →
      (∀ n, IsGreatest shared n → localHead.height - n ≤ maxForkAncestry →
        ∃ a, x.standing = .ok (.inr a) ∧ mine[n]? = some a.header) ∧
      (((∃ n, IsGreatest shared n ∧ maxForkAncestry < localHead.height - n) ∨
          ¬ Shares mine theirs 0) →
        ∃ reason, x.standing = .error (.ancestorNotFound peer.id reason))) := by
  intro x lower shared
  have truthful : Inquiry.Truthful mine theirs peer localHead maxForkAncestry x.hub x.heard.length
      x.standing := by
    refine Inquiry.run_truthful chains ?_ unhindered
    exact Inquiry.probe_truthful serves 0 trivial trivial (Nat.zero_add _).le
  clear_value x
  obtain ⟨hub, standing, heard⟩ := x
  cases truthful with
  | @waiting s pending =>
    refine ⟨?_, nofun⟩
    rintro call ⟨⟩
    have left := pending.left
    have positive : 0 < s.aim.budget (AncestorSearch.height peer localHead) := by
      cases s.aim <;> exact Nat.succ_pos _
    obtain ⟨b, hb⟩ := chains.exists_theirs (Aim.number_le pending.wide)
    exact ⟨Nat.lt_of_lt_of_le (Nat.lt_add_of_pos_right positive) left, _, b, pending.request, hb⟩
  | @found n a ours last near =>
    refine ⟨nofun, fun _ => ⟨?_, ?_⟩⟩
    · intro m greatest _
      obtain rfl := greatest.unique last
      exact ⟨a, rfl, ours⟩
    · rintro (⟨m, greatest, deep⟩ | nothing)
      · obtain rfl := greatest.unique last
        omega
      · exact absurd (chains.closed (Nat.zero_le n) last.1.2) nothing
  | @tooDeep n reason last deep =>
    refine ⟨nofun, fun _ => ⟨?_, fun _ => ⟨reason, rfl⟩⟩⟩
    intro m greatest near
    obtain rfl := greatest.unique last
    omega
  | @apart reason nothing =>
    refine ⟨nofun, fun _ => ⟨?_, fun _ => ⟨reason, rfl⟩⟩⟩
    intro m greatest _
    exact absurd (chains.closed (Nat.zero_le m) greatest.1.2) nothing

theorem ancestor_is_last_shared_block_forked :
    let first : Header := { number := 1, parentHash := Header.hash {} }
    let localHead : Header := { number := 2, parentHash := first.hash, gasLimit := 1 }
    let remoteHead : Header := { number := 2, parentHash := first.hash, gasLimit := 2 }
    let mine : List Header := [{}, first, localHead]
    let theirs : List Header := [{}, first, remoteHead]
    let peer : SyncPeer :=
      { info :=
          { id := 1, version := 68, headHash := remoteHead.hash, head := 2
            totalDifficulty := .ofNat 0, forkId := none, connection := 0 }
        state := .idle, inFlight := .const 0, throughput := .const 1, rtt := none
        consecutiveTimeouts := 0 }
    let h : Hub Unit := { peers := { config := {}, peers := [peer] }, board := ⟨{}, ()⟩ }
    let view : ChainView :=
      { currentHeader := .ok localHead, totalDifficulty := fun _ => .ok none
        headerByHash := fun hash => .ok (mine.find? (·.hash == hash)) }
    let tell (ticket : Nat) (header : Header) : Inquiry.Event Unit :=
      .signal false view (.ended ticket (.answered (.headers [header])))
    let events := [tell 0 remoteHead, tell 1 first]
    Chains mine theirs localHead peer ∧ h.peers.Serves peer.id .headers 1 ∧
      Inquiry.Unhindered mine theirs peer.id (.begin h false peer localHead 1) events ∧
      ∃ a, ((Inquiry.begin h false peer localHead 1).run events).standing = .ok (.inr a) ∧
        a.header = first := by
  intro first localHead remoteHead mine theirs peer h view tell events
  let x := Inquiry.begin h false peer localHead 1
  -- headers are hashed once for all that depends on it
  obtain ⟨distinct, apart, top, middle, ended⟩ :
      (∀ x ∈ mine ++ theirs, ∀ y ∈ mine ++ theirs, keccak x.encode = keccak y.encode → x = y) ∧
      (∀ n < 3, mine[n]?.map Header.hash = theirs[n]?.map Header.hash → n ≤ 1) ∧
      x.call?.map (·.request) = some (.headers (.single (.number 2))) ∧
      (x.apply (tell 0 remoteHead)).call?.map (·.request) =
        some (.headers (.single (.number 1))) ∧
      (x.run events).call? = none := by
    decide +kernel
  have rooted (y z : Header) (heights : y.height = 1 ∧ z.height = 2)
      (linked : y.parentHash = Header.hash {} ∧ z.parentHash = y.hash) : Rooted [{}, y, z] := by
    refine ⟨fun n h found => ?_, .cons_cons linked.1 (.cons_cons linked.2 (.singleton _))⟩
    match n, found with
    | 0, found => exact Option.some.inj found ▸ rfl
    | 1, found => exact Option.some.inj found ▸ heights.1
    | 2, found => exact Option.some.inj found ▸ heights.2
  have chains : Chains mine theirs localHead peer := by
    refine ⟨rooted _ _ ⟨rfl, rfl⟩ ⟨rfl, rfl⟩, rooted _ _ ⟨rfl, rfl⟩ ⟨rfl, rfl⟩, rfl, rfl, ?_⟩
    rintro _ ⟨x, hx, rfl⟩ _ ⟨y, hy, rfl⟩ same
    rw [distinct x (List.mem_append.mpr hx) y (List.mem_append.mpr hy) same]
  have serves : h.peers.Serves peer.id .headers 1 := ⟨by decide, peer, rfl, rfl, by decide⟩
  have fair (x : Inquiry Unit) (number ticket : Nat) (header : Header)
      (asks : x.call?.map (·.request) = some (.headers (.single (.number number))))
      (has : theirs[number]? = some header) : x.Fair mine theirs peer.id (tell ticket header) := by
    refine ⟨rfl, fun _ => rfl, ?_⟩
    rintro call ending waits told n request
    rw [waits, Option.map_some, request] at asks
    cases asks
    cases told
    rw [has]
    rfl
  have unhindered : Inquiry.Unhindered mine theirs peer.id x events :=
    ⟨fair x 2 0 remoteHead top rfl, fair (x.apply (tell 0 remoteHead)) 1 1 first middle rfl, trivial⟩
  obtain ⟨near, -⟩ := (ancestor_is_last_shared_block chains serves 1 events unhindered).2 ended
  have last : IsGreatest {n | n ≤ 2 ∧ Shares mine theirs n} 1 := by
    refine ⟨⟨by decide, first, first, rfl, rfl, rfl⟩, ?_⟩
    rintro n ⟨bound, a, b, ha, hb, same⟩
    refine apart n (Nat.lt_succ_of_le bound) ?_
    rw [ha, hb, Option.map_some, Option.map_some, same]
  obtain ⟨a, found, header⟩ := near 1 last (by decide)
  exact ⟨chains, serves, unhindered, a, found, (Option.some.inj header).symm⟩

end ChainSync
