import Mathlib.Data.List.Induction
import Mathlib.Tactic.IntervalCases
import ChainSync.Proofs.Ancestor.Inquiry
import ChainSync.Proofs.Ancestor.Turn
set_option autoImplicit false

/-!
What a search comes to with a peer that may answer anything: it ends, and an ancestor that it finds
is a block of ours that the peer has shown at its own height.
-/

namespace ChainSync

open Fetch

namespace Aim

/-- The highest block known to be shared while the search bisects. -/
def known? : Aim → Option Header
  | .middle _ _ known => known
  | _ => none

variable {height low high : Nat} {known copy : Option Header} {aim next : Aim} {header : Header}

theorem budget_pos (height : Nat) (aim : Aim) : 0 < aim.budget height := by
  cases aim <;> exact Nat.succ_pos _

theorem narrow_known (looks : narrow height low high known = .look next)
    (kept : next.known? = some header) : known = some header := by
  unfold narrow at looks
  split at looks
  · cases looks
    exact kept
  · split at looks
    · cases looks
    · split at looks <;> cases looks
      cases kept

theorem narrow_found (found : narrow height low high known = .found header) :
    known = some header := by
  unfold narrow at found
  split at found
  · cases found
  · split at found
    · cases found
      rfl
    · split at found <;> cases found

/-- What is known was learnt just now, or before. -/
theorem learn_known (looks : aim.learn height copy = .look next)
    (kept : next.known? = some header) : copy = some header ∨ aim.known? = some header := by
  cases aim with
  | top =>
    cases copy with
    | some header => cases looks
    | none => exact .inr (narrow_known looks kept)
  | middle low high known =>
    cases copy with
    | some copy =>
      have narrowed : narrow height _ high (some copy) = .look next := looks
      exact .inl (narrow_known narrowed kept)
    | none => exact .inr (narrow_known looks kept)
  | genesis => cases copy <;> cases looks

theorem learn_found (found : aim.learn height copy = .found header) :
    copy = some header ∨ aim.known? = some header := by
  cases aim with
  | top =>
    cases copy with
    | some copy =>
      cases found
      exact .inl rfl
    | none => exact .inr (narrow_found found)
  | middle low high known =>
    cases copy with
    | some copy =>
      have narrowed : narrow height _ high (some copy) = .found header := found
      exact .inl (narrow_found narrowed)
    | none => exact .inr (narrow_found found)
  | genesis =>
    cases copy with
    | some copy =>
      cases found
      exact .inl rfl
    | none => cases found

end Aim

namespace Inquiry

variable {σ : Type} {x₀ x : Inquiry σ} {events : List (Event σ)} {cancelled : Bool}
  {peer : SyncPeer} {localHead header : Header} {maxForkAncestry : Nat}

/-- Our copy of a header that the peer sent, and nothing else, when it was asked for the block of
just this height. -/
def Vouched (x : Inquiry σ) (events : List (Event σ)) (peer : PeerId) (header : Header) : Prop :=
  ∃ earlier cancelled view call payload remote later,
    events = earlier ++ .signal cancelled view (.ended call.ticket (.answered payload)) :: later ∧
    (x.run earlier).call? = some call ∧ call.peer = peer ∧
    call.request = .headers (.single (.number header.height)) ∧
    payload.headersOf = [remote] ∧ remote.height = header.height ∧
    view.headerByHash remote.hash = .ok (some header)

/-- The local chain failed to look up a header that was sent. -/
def Stumbled (events : List (Event σ)) (err : ChainError) : Prop :=
  ∃ cancelled view ticket payload remote,
    .signal cancelled view (.ended ticket (.answered payload)) ∈ events ∧
    payload.headersOf = [remote] ∧ view.headerByHash remote.hash = .error err

theorem Vouched.append {id : PeerId} (vouched : Vouched x events id header)
    (more : List (Event σ)) : Vouched x (events ++ more) id header := by
  obtain ⟨earlier, cancelled, view, call, payload, remote, later, rfl, facts⟩ := vouched
  exact ⟨earlier, cancelled, view, call, payload, remote, later ++ more, by simp, facts⟩

/-- What a search has come to after these events. -/
inductive Pursued (x₀ : Inquiry σ) (events : List (Event σ)) (cancelled : Bool) (peer : SyncPeer)
    (localHead : Header) (maxForkAncestry : Nat) :
    Except SyncError (AncestorSearch ⊕ Ancestor) → Prop where
  | waits {s : AncestorSearch} (seeks : s.Seeks peer localHead maxForkAncestry)
      (known : ∀ header, s.aim.known? = some header → Vouched x₀ events peer.id header ∧
        header.height ≤ AncestorSearch.height peer localHead) :
    Pursued x₀ events cancelled peer localHead maxForkAncestry (.ok (.inl s))
  | found {a : Ancestor} (vouched : Vouched x₀ events peer.id a.header)
      (below : a.header.height ≤ AncestorSearch.height peer localHead)
      (near : localHead.height - a.header.height ≤ maxForkAncestry) :
    Pursued x₀ events cancelled peer localHead maxForkAncestry (.ok (.inr a))
  | refused {reason : String} :
    Pursued x₀ events cancelled peer localHead maxForkAncestry
      (.error (.ancestorNotFound peer.id reason))
  | givenUp (wish : cancelled = true ∨ ∃ view signal, .signal true view signal ∈ events) :
    Pursued x₀ events cancelled peer localHead maxForkAncestry (.error .cancelled)
  | stumbled {err : ChainError} (stumbled : Stumbled events err) :
    Pursued x₀ events cancelled peer localHead maxForkAncestry (.error (.chain err))

theorem Pursued.append {standing : Except SyncError (AncestorSearch ⊕ Ancestor)}
    (pursued : Pursued x₀ events cancelled peer localHead maxForkAncestry standing)
    (more : List (Event σ)) :
    Pursued x₀ (events ++ more) cancelled peer localHead maxForkAncestry standing := by
  cases pursued with
  | waits seeks known =>
    refine .waits seeks fun header kept => ?_
    obtain ⟨vouched, below⟩ := known header kept
    exact ⟨vouched.append more, below⟩
  | found vouched below near => exact .found (vouched.append more) below near
  | refused => exact .refused
  | givenUp wish =>
    refine .givenUp (wish.imp_right ?_)
    rintro ⟨view, signal, mem⟩
    exact ⟨view, signal, List.mem_append_left more mem⟩
  | stumbled stumbled =>
    obtain ⟨cancelled, view, ticket, payload, remote, mem, facts⟩ := stumbled
    exact .stumbled ⟨cancelled, view, ticket, payload, remote, List.mem_append_left more mem, facts⟩

/-- A copy that is learnt from the answer to a question is vouched for. -/
theorem vouched_of_learns {s : AncestorSearch} {view : ChainView} {signal : Signal} (wish : Bool)
    (standing : (x₀.run events).standing = .ok (.inl s))
    (seeks : s.Seeks peer localHead maxForkAncestry) (learns : s.Learns view signal (some header)) :
    Vouched x₀ (events ++ [.signal wish view signal]) peer.id header ∧
      header.height ≤ AncestorSearch.height peer localHead := by
  obtain ⟨payload, remote, found, rfl, one, right, told, copy⟩ := learns
  obtain ⟨rfl, height⟩ := Option.filter_eq_some_iff.mp copy.symm
  have same : header.height = s.aim.number (AncestorSearch.height peer localHead) := by
    rw [← seeks.peer_eq, ← seeks.head_eq]
    simpa using height
  rw [seeks.peer_eq, seeks.head_eq, ← same] at right
  refine ⟨⟨events, wish, view, s.query.call, payload, remote, [], rfl, ?_, seeks.receiver, ?_, one,
    right, told⟩, ?_⟩
  · rw [call?, standing]
  · rw [seeks.request, same]
  · rw [same]
    exact Aim.number_le seeks.wide

theorem asked_pursued {h : Hub σ} {wish : Bool} {probes : Nat} {aim : Aim}
    {out : Hub σ × Except SyncError (AncestorSearch ⊕ Ancestor)}
    (asked : AncestorSearch.Asked h wish peer localHead maxForkAncestry probes aim out)
    (wide : aim.Wide (AncestorSearch.height peer localHead))
    (given : wish = true → cancelled = true ∨ ∃ view signal, .signal true view signal ∈ events)
    (known : ∀ header, aim.known? = some header → Vouched x₀ events peer.id header ∧
      header.height ≤ AncestorSearch.height peer localHead) :
    Pursued x₀ events cancelled peer localHead maxForkAncestry out.2 := by
  cases asked with
  | sent outbox receiver request =>
    exact .waits ⟨rfl, rfl, rfl, wide, receiver, request⟩ known
  | refused => exact .refused
  | givenUp wish => exact .givenUp (given wish)

theorem apply_pursued
    (pursued : Pursued x₀ events cancelled peer localHead maxForkAncestry (x₀.run events).standing)
    (event : Event σ) :
    Pursued x₀ (events ++ [event]) cancelled peer localHead maxForkAncestry
      ((x₀.run events).apply event).standing := by
  cases event with
  | meanwhile hub => exact pursued.append _
  | signal wish view signal =>
    cases hs : (x₀.run events).standing with
    | error err =>
      simp only [apply, hs]
      exact hs ▸ pursued.append _
    | ok going =>
      cases going with
      | inr a =>
        simp only [apply, hs]
        exact hs ▸ pursued.append _
      | inl s =>
        simp only [apply, hs]
        rw [hs] at pursued
        cases pursued with
        | waits seeks known =>
          have turned := s.step_turn (x₀.run events).hub wish view signal
          generalize s.step (x₀.run events).hub wish view signal = out at turned
          have here : (.signal wish view signal : Event σ) ∈ events ++ [.signal wish view signal] :=
            List.mem_append_right _ (List.mem_singleton.mpr rfl)
          have given (wished : wish = true) : cancelled = true ∨ ∃ view' signal',
              .signal true view' signal' ∈ events ++ [.signal wish view signal] :=
            .inr ⟨view, signal, wished ▸ here⟩
          -- what is known was known before, or is the answer to the question that waited
          have knows {copy : Option Header} (learns : s.Learns view signal copy) (header : Header)
              (now : copy = some header ∨ s.aim.known? = some header) :
              Vouched x₀ (events ++ [.signal wish view signal]) peer.id header ∧
                header.height ≤ AncestorSearch.height peer localHead := by
            rcases now with rfl | before
            · exact vouched_of_learns wish hs seeks learns
            · exact ⟨(known header before).1.append _, (known header before).2⟩
          cases turned with
          | waits other => exact (Pursued.waits seeks known).append _
          | givenUp outbox wished => exact .givenUp (given wished)
          | refused outbox => exact seeks.peer_eq ▸ .refused
          | stumbled outbox stumbles =>
            obtain ⟨payload, remote, rfl, one, failed⟩ := stumbles
            exact .stumbled ⟨wish, view, s.query.call.ticket, payload, remote, here, one, failed⟩
          | @found h' copy header outbox learns last near =>
            rw [seeks.head_eq, seeks.limit_eq] at near
            obtain ⟨vouched, below⟩ := knows learns header (Aim.learn_found last)
            exact .found vouched below near
          | @looks h' copy aim out outbox learns next asked =>
            rw [seeks.peer_eq, seeks.head_eq] at next
            rw [seeks.peer_eq, seeks.head_eq, seeks.limit_eq] at asked
            exact asked_pursued asked (Aim.learn_wide seeks.wide next) given fun header kept =>
              knows learns header (Aim.learn_known next kept)

theorem run_concat (x : Inquiry σ) (events : List (Event σ)) (event : Event σ) :
    x.run (events ++ [event]) = (x.run events).apply event := by
  rw [run, List.foldl_append]
  rfl

theorem run_pursued
    (begun : Pursued x₀ [] cancelled peer localHead maxForkAncestry x₀.standing)
    (events : List (Event σ)) :
    Pursued x₀ events cancelled peer localHead maxForkAncestry (x₀.run events).standing := by
  induction events using List.reverseRecOn with
  | nil => exact begun
  | append_singleton events event ih =>
    rw [run_concat]
    exact apply_pursued ih event

theorem begin_pursued (h : Hub σ) (cancelled : Bool) (peer : SyncPeer) (localHead : Header)
    (maxForkAncestry : Nat) :
    Pursued (.begin h cancelled peer localHead maxForkAncestry) [] cancelled peer localHead
      maxForkAncestry (begin h cancelled peer localHead maxForkAncestry).standing :=
  asked_pursued
    (AncestorSearch.probe_asks_or_fails h cancelled peer localHead maxForkAncestry 0 .top)
    trivial .inl (by rintro header ⟨⟩)

/-- The question is answered, or fails, or its time is up. -/
def Event.Ends (ticket : Nat) (event : Event σ) : Prop :=
  ∃ cancelled view ending, event = .signal cancelled view (.ended ticket ending)

/-- The end of a question ends the search or brings it nearer to its end; nothing else but the wish
to give up matters to it. -/
theorem apply_narrows {s : AncestorSearch} (waiting : x.standing = .ok (.inl s))
    (seeks : s.Seeks peer localHead maxForkAncestry) (event : Event σ) :
    (x.apply event).call? = none ∨
      ((x.apply event).standing = .ok (.inl s) ∧ ¬ event.Ends s.query.call.ticket) ∨
      ∃ t, (x.apply event).standing = .ok (.inl t) ∧ t.Seeks peer localHead maxForkAncestry ∧
        t.aim.budget (AncestorSearch.height peer localHead) <
          s.aim.budget (AncestorSearch.height peer localHead) := by
  cases event with
  | meanwhile hub =>
    refine .inr (.inl ⟨waiting, ?_⟩)
    rintro ⟨cancelled, view, ending, ⟨⟩⟩
  | signal wish view signal =>
    have turned := s.step_turn x.hub wish view signal
    simp only [apply, waiting, call?]
    generalize s.step x.hub wish view signal = out at turned
    cases turned with
    | waits other =>
      refine .inr (.inl ⟨rfl, ?_⟩)
      rintro ⟨cancelled, view', ending, same⟩
      cases same
      exact other ending rfl
    | givenUp outbox wished => exact .inl rfl
    | refused outbox => exact .inl rfl
    | stumbled outbox stumbles => exact .inl rfl
    | found outbox learns last near => exact .inl rfl
    | @looks h' copy aim out outbox learns next asked =>
      rw [seeks.peer_eq, seeks.head_eq] at next
      rw [seeks.peer_eq, seeks.head_eq, seeks.limit_eq] at asked
      cases asked with
      | sent outbox receiver request =>
        refine .inr (.inr ⟨_, rfl, ⟨rfl, rfl, rfl, Aim.learn_wide seeks.wide next, receiver,
          request⟩, Aim.learn_budget seeks.wide next⟩)
      | refused => exact .inl rfl
      | givenUp wished => exact .inl rfl

theorem run_range (x : Inquiry σ) (stream : Nat → Event σ) (n : Nat) :
    x.run ((List.range (n + 1)).map stream) =
      (x.run ((List.range n).map stream)).apply (stream n) := by
  rw [List.range_succ, List.map_append, List.map_singleton, run_concat]

/-- By induction on what a search may still have to look at. -/
theorem exists_over {stream : Nat → Event σ}
    (ends : ∀ n call, (x.run ((List.range n).map stream)).call? = some call →
      ∃ m, n ≤ m ∧ (stream m).Ends call.ticket) (budget : Nat) :
    ∀ n s, (x.run ((List.range n).map stream)).standing = .ok (.inl s) →
      s.Seeks peer localHead maxForkAncestry →
      s.aim.budget (AncestorSearch.height peer localHead) ≤ budget →
      ∃ m, (x.run ((List.range m).map stream)).call? = none := by
  induction budget with
  | zero =>
    intro n s _ _ spent
    exact absurd spent (Nat.not_le.mpr (Aim.budget_pos _ _))
  | succ budget ih =>
    intro n s waiting seeks left
    by_contra endless
    rw [not_exists] at endless
    have next (k : Nat) (still : (x.run ((List.range k).map stream)).standing = .ok (.inl s)) :
        (x.run ((List.range (k + 1)).map stream)).standing = .ok (.inl s) ∧
          ¬ (stream k).Ends s.query.call.ticket := by
      rcases apply_narrows still seeks (stream k) with ended | same | ⟨t, waits, seeks', less⟩
      · exact absurd (run_range x stream k ▸ ended) (endless (k + 1))
      · exact run_range x stream k ▸ same
      · rw [← run_range] at waits
        exact (not_exists.mpr endless (ih (k + 1) t waits seeks' (by omega))).elim
    have still (d : Nat) : (x.run ((List.range (n + d)).map stream)).standing = .ok (.inl s) := by
      induction d with
      | zero => exact waiting
      | succ d ihd => exact (next (n + d) ihd).1
    obtain ⟨m, le, ended⟩ := ends n s.query.call (by rw [call?, waiting])
    obtain ⟨d, rfl⟩ := Nat.exists_eq_add_of_le le
    exact (next (n + d) (still d)).2 ended

theorem call?_apply_of_over (ended : x.call? = none) (event : Event σ) :
    (x.apply event).call? = none := by
  cases event with
  | meanwhile hub => exact ended
  | signal cancelled view signal =>
    simp only [apply]
    split
    · rename_i s waiting
      rw [call?, waiting] at ended
      cases ended
    · exact ended

end Inquiry

/-- Whatever a peer answers, an ancestor that a search finds is our copy of a header that the peer
sent when asked for just this block; it is not above either head, nor too far below ours, and no
depth is ever taken of a block above our head. A search that fails has nothing but the peer, the
wish to give up or the local chain to name for it. If no question is left without an end, be it an
answer, a failure or a timeout, the search comes to its own. -/
theorem ancestor_is_vouched_for {σ : Type} (h : Hub σ) (cancelled : Bool) (peer : SyncPeer)
    (localHead : Header) (maxForkAncestry : Nat) :
    let x := Inquiry.begin h cancelled peer localHead maxForkAncestry
    (∀ events,
      (∀ a, (x.run events).standing = .ok (.inr a) →
        Inquiry.Vouched x events peer.id a.header ∧
          a.header.height ≤ min localHead.height peer.info.head.toNat ∧
          localHead.height - a.header.height ≤ maxForkAncestry) ∧
      (∀ err, (x.run events).standing = .error err →
        (∃ reason, err = .ancestorNotFound peer.id reason) ∨
        (err = .cancelled ∧
          (cancelled = true ∨ ∃ view signal, .signal true view signal ∈ events)) ∨
        ∃ e, err = .chain e ∧ Inquiry.Stumbled events e) ∧
      ∀ s view signal copy header, (x.run events).standing = .ok (.inl s) →
        s.Learns view signal copy →
        s.aim.learn (AncestorSearch.height s.peer s.localHead) copy = .found header →
        header.height ≤ s.localHead.height) ∧
    ∀ stream : Nat → Inquiry.Event σ,
      (∀ n call, (x.run ((List.range n).map stream)).call? = some call →
        ∃ m, n ≤ m ∧ (stream m).Ends call.ticket) →
      ∃ n, (x.run ((List.range n).map stream)).call? = none := by
  intro x
  have pursued (events : List (Inquiry.Event σ)) : Inquiry.Pursued x events cancelled peer localHead
      maxForkAncestry (x.run events).standing :=
    Inquiry.run_pursued (Inquiry.begin_pursued h cancelled peer localHead maxForkAncestry) events
  refine ⟨fun events => ⟨fun a found => ?_, fun err failed => ?_, ?_⟩, fun stream ends => ?_⟩
  · have pursued := pursued events
    rw [found] at pursued
    cases pursued with
    | found vouched below near => exact ⟨vouched, below, near⟩
  · have pursued := pursued events
    rw [failed] at pursued
    cases pursued with
    | @refused reason => exact .inl ⟨reason, rfl⟩
    | givenUp wish => exact .inr (.inl ⟨rfl, wish⟩)
    | @stumbled err stumbled => exact .inr (.inr ⟨err, rfl, stumbled⟩)
  · intro s view signal copy header waiting learns found
    have pursued := pursued events
    rw [waiting] at pursued
    cases pursued with
    | waits seeks known =>
      have below : header.height ≤ AncestorSearch.height peer localHead := by
        rcases Aim.learn_found found with rfl | before
        · exact (Inquiry.vouched_of_learns false waiting seeks learns).2
        · exact (known header before).2
      rw [seeks.head_eq]
      exact below.trans (Nat.min_le_left ..)
  · rcases waiting : x.standing with err | s | a
    · exact ⟨0, by simp [Inquiry.run, Inquiry.call?, waiting]⟩
    · have pursued := pursued []
      rw [Inquiry.run, List.foldl_nil, waiting] at pursued
      cases pursued with
      | waits seeks known => exact Inquiry.exists_over ends _ 0 s waiting seeks le_rfl
    · exact ⟨0, by simp [Inquiry.run, Inquiry.call?, waiting]⟩

/-- A peer that knows no head of ours, shows a block that we have below it, and then another one
that we do not have. -/
theorem ancestor_is_vouched_for_halfway :
    let first : Header := { number := 1 }
    let localHead : Header := { number := 3 }
    let peer : SyncPeer :=
      { info :=
          { id := 1, version := 68, headHash := Header.hash {}, head := 7
            totalDifficulty := .ofNat 0, forkId := none, connection := 0 }
        state := .idle, inFlight := .const 0, throughput := .const 1, rtt := none
        consecutiveTimeouts := 0 }
    let h : Hub Unit := { peers := { config := {}, peers := [peer] }, board := ⟨{}, ()⟩ }
    let tell (ticket : Nat) (header : Header) (copy : Option Header) : Inquiry.Event Unit :=
      .signal false
        { currentHeader := .ok localHead, headerByHash := fun _ => .ok copy
          totalDifficulty := fun _ => .ok none }
        (.ended ticket (.answered (.headers [header])))
    let events :=
      [tell 0 { number := 3, gasLimit := 1 } none, tell 1 first first,
        tell 2 { number := 2, gasLimit := 1 } none]
    let stream (n : Nat) := events[n]?.getD (.meanwhile h)
    let x := Inquiry.begin h false peer localHead 2
    (∃ a, (x.run events).standing = .ok (.inr a) ∧ a.header = first ∧
      Inquiry.Vouched x events peer.id first ∧ first.height ≤ 3 ∧ 3 - first.height ≤ 2) ∧
    (∀ n call, (x.run ((List.range n).map stream)).call? = some call →
      ∃ m, n ≤ m ∧ (stream m).Ends call.ticket) ∧
    ∃ n, (x.run ((List.range n).map stream)).call? = none := by
  intro first localHead peer h tell events stream x
  obtain ⟨tickets, last⟩ : (∀ n < 3,
        (x.run ((List.range n).map stream)).call?.map (·.ticket) = some n) ∧
      (x.run ((List.range 3).map stream)).call? = none := by
    decide +kernel
  have ended (n : Nat) (hn : 3 ≤ n) : (x.run ((List.range n).map stream)).call? = none := by
    induction n, hn using Nat.le_induction with
    | base => exact last
    | succ n hn ih => exact Inquiry.run_range x stream n ▸ Inquiry.call?_apply_of_over ih _
  have ends (n : Nat) (call : Call)
      (waiting : (x.run ((List.range n).map stream)).call? = some call) :
      ∃ m, n ≤ m ∧ (stream m).Ends call.ticket := by
    have early : n < 3 := by
      by_contra late
      rw [ended n (Nat.le_of_not_lt late)] at waiting
      cases waiting
    have ticket : call.ticket = n := by simpa [waiting] using tickets n early
    refine ⟨n, le_rfl, ?_⟩
    rw [ticket]
    interval_cases n <;> exact ⟨_, _, _, rfl⟩
  have result : (x.run events).standing.toOption.bind Sum.getRight? = some ⟨first, 3⟩ := by
    decide +kernel
  obtain ⟨outcome, settles⟩ := ancestor_is_vouched_for h false peer localHead 2
  refine ⟨?_, ends, settles stream ends⟩
  rcases found : (x.run events).standing with err | s | a
  · rw [found] at result
    cases result
  · rw [found] at result
    cases result
  · rw [found] at result
    cases result
    obtain ⟨vouched, below, near⟩ := (outcome events).1 _ found
    exact ⟨_, rfl, rfl, vouched, below.trans (Nat.min_le_left ..), near⟩

end ChainSync
