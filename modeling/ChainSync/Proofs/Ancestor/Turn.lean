import ChainSync.Proofs.Ancestor.Bisection
set_option autoImplicit false

/-!
All that can come of a question to a peer and of a signal to a search, whoever sends it.
-/

namespace ChainSync

open Fetch

variable {σ : Type}

/-- What a signal does to a query. -/
inductive HeaderQuery.Turn (q : HeaderQuery) (h : Hub σ) (cancelled : Bool) :
    Signal → Hub σ × Option (Except SyncError (List Header)) → Prop where
  | waits {signal : Signal} (other : ∀ ending, signal ≠ .ended q.call.ticket ending) :
    Turn q h cancelled signal (h, none)
  | answered {h' : Hub σ} (payload : Payload) (outbox : h'.outbox = h.outbox) :
    Turn q h cancelled (.ended q.call.ticket (.answered payload))
      (h', some (.ok payload.headersOf))
  | lost {h' : Hub σ} {ending : Ending} {err : SyncError} (outbox : h'.outbox = h.outbox)
      (unwanted : err ≠ .cancelled) :
    Turn q h cancelled (.ended q.call.ticket ending) (h', some (.error err))
  | givenUp {h' : Hub σ} (outbox : h'.outbox = h.outbox) (wish : cancelled = true) :
    Turn q h cancelled .woken (h', some (.error .cancelled))

theorem HeaderQuery.step_turn (q : HeaderQuery) (h : Hub σ) (cancelled : Bool) (signal : Signal) :
    q.Turn h cancelled signal (q.step h cancelled signal) := by
  cases signal with
  | ended ticket ending =>
    simp only [step]
    split
    · rename_i own
      subst own
      cases ending with
      | answered payload => exact .answered payload rfl
      | failed err => exact .lost rfl nofun
      | timedOut => exact .lost rfl nofun
    · rename_i other
      exact .waits fun ending same => other (Signal.ended.inj same).1
  | woken =>
    simp only [step]
    split
    · exact .givenUp rfl ‹_›
    · exact .waits nofun
  | deadline => exact .waits nofun

namespace AncestorSearch

/-- What comes of asking for a block. -/
inductive Asked (h : Hub σ) (cancelled : Bool) (peer : SyncPeer) (localHead : Header)
    (maxForkAncestry probes : Nat) (aim : Aim) :
    Hub σ × Except SyncError (AncestorSearch ⊕ Ancestor) → Prop where
  | sent {h' : Hub σ} {query : HeaderQuery} (outbox : h'.outbox = h.outbox ++ [query.call])
      (receiver : query.call.peer = peer.id)
      (request : query.call.request =
        .headers (.single (.number (aim.number (height peer localHead))))) :
    Asked h cancelled peer localHead maxForkAncestry probes aim
      (h', .ok (.inl { peer, localHead, maxForkAncestry, probes := probes + 1, aim, query }))
  | refused {reason : String} :
    Asked h cancelled peer localHead maxForkAncestry probes aim
      (h, .error (.ancestorNotFound peer.id reason))
  | givenUp (wish : cancelled = true) :
    Asked h cancelled peer localHead maxForkAncestry probes aim (h, .error .cancelled)

theorem probe_asks_or_fails (h : Hub σ) (cancelled : Bool) (peer : SyncPeer) (localHead : Header)
    (maxForkAncestry probes : Nat) (aim : Aim) :
    Asked h cancelled peer localHead maxForkAncestry probes aim
      (probe h cancelled peer localHead maxForkAncestry probes aim) := by
  unfold probe HeaderQuery.ask
  dsimp only
  cases begun : h.peers.beginRequest peer.id .headers with
  | error err => exact .refused
  | ok slot =>
    cases cancelled with
    | true => exact .givenUp rfl
    | false => exact .sent rfl rfl rfl

/-- What the local chain has of the header that answers a probe. -/
def Learns (s : AncestorSearch) (view : ChainView) (signal : Signal) (copy : Option Header) :
    Prop :=
  ∃ payload remote found, signal = .ended s.query.call.ticket (.answered payload) ∧
    payload.headersOf = [remote] ∧ remote.height = s.aim.number (height s.peer s.localHead) ∧
    view.headerByHash remote.hash = .ok found ∧
    copy = found.filter (·.height == s.aim.number (height s.peer s.localHead))

/-- The local chain fails to look up the header that answers a probe. -/
def Stumbles (s : AncestorSearch) (view : ChainView) (signal : Signal) (err : ChainError) : Prop :=
  ∃ payload remote, signal = .ended s.query.call.ticket (.answered payload) ∧
    payload.headersOf = [remote] ∧ view.headerByHash remote.hash = .error err

/-- What a signal does to a search. -/
inductive Turn (s : AncestorSearch) (h : Hub σ) (cancelled : Bool) (view : ChainView)
    (signal : Signal) : Hub σ × Except SyncError (AncestorSearch ⊕ Ancestor) → Prop where
  | waits (other : ∀ ending, signal ≠ .ended s.query.call.ticket ending) :
    Turn s h cancelled view signal (h, .ok (.inl s))
  | givenUp {h' : Hub σ} (outbox : h'.outbox = h.outbox) (wish : cancelled = true) :
    Turn s h cancelled view signal (h', .error .cancelled)
  | refused {h' : Hub σ} {reason : String} (outbox : h'.outbox = h.outbox) :
    Turn s h cancelled view signal (h', .error (.ancestorNotFound s.peer.id reason))
  | stumbled {h' : Hub σ} {err : ChainError} (outbox : h'.outbox = h.outbox)
      (stumbles : s.Stumbles view signal err) :
    Turn s h cancelled view signal (h', .error (.chain err))
  | looks {h' : Hub σ} {copy : Option Header} {aim : Aim}
      {out : Hub σ × Except SyncError (AncestorSearch ⊕ Ancestor)} (outbox : h'.outbox = h.outbox)
      (learns : s.Learns view signal copy)
      (next : s.aim.learn (height s.peer s.localHead) copy = .look aim)
      (asked : Asked h' cancelled s.peer s.localHead s.maxForkAncestry s.probes aim out) :
    Turn s h cancelled view signal out
  | found {h' : Hub σ} {copy : Option Header} {header : Header} (outbox : h'.outbox = h.outbox)
      (learns : s.Learns view signal copy)
      (last : s.aim.learn (height s.peer s.localHead) copy = .found header)
      (near : s.localHead.height - header.height ≤ s.maxForkAncestry) :
    Turn s h cancelled view signal (h', .ok (.inr ⟨header, s.probes⟩))

/-- Whether the answer to a probe can be used. -/
inductive Judged (peer : PeerId) (view : ChainView) (number : Nat) (headers : List Header) :
    Except SyncError (Option Header) → Prop where
  | refused {reason : String} : Judged peer view number headers
      (.error (.ancestorNotFound peer reason))
  | stumbled {remote : Header} {err : ChainError} (one : headers = [remote])
      (failed : view.headerByHash remote.hash = .error err) :
    Judged peer view number headers (.error (.chain err))
  | learnt {remote : Header} {found : Option Header} (one : headers = [remote])
      (right : remote.height = number) (told : view.headerByHash remote.hash = .ok found) :
    Judged peer view number headers (.ok (found.filter (·.height == number)))

theorem lookUp_judged (peer : PeerId) (view : ChainView) (number : Nat) (headers : List Header) :
    Judged peer view number headers (lookUp peer view number headers) := by
  unfold lookUp
  split
  · split
    · exact .refused
    · rename_i remote right
      cases told : view.headerByHash remote.hash with
      | error err => exact .stumbled rfl told
      | ok found => exact .learnt rfl (not_not.mp right) told
  · exact .refused

theorem step_turn (s : AncestorSearch) (h : Hub σ) (cancelled : Bool) (view : ChainView)
    (signal : Signal) : s.Turn h cancelled view signal (s.step h cancelled view signal) := by
  have queried := s.query.step_turn h cancelled signal
  unfold step
  generalize s.query.step h cancelled signal = out at queried
  cases queried with
  | waits other => exact .waits other
  | givenUp outbox wish => exact .givenUp outbox wish
  | @lost h' ending err outbox unwanted =>
    cases err with
    | cancelled => exact absurd rfl unwanted
    | _ => exact .refused outbox
  | @answered h' payload outbox =>
    dsimp only
    have judged := lookUp_judged s.peer.id view (s.aim.number (height s.peer s.localHead))
      payload.headersOf
    generalize lookUp s.peer.id view _ payload.headersOf = copy at judged
    cases judged with
    | refused => exact .refused outbox
    | stumbled one failed => exact .stumbled outbox ⟨payload, _, rfl, one, failed⟩
    | @learnt remote found one right told =>
      have learns : s.Learns view (.ended s.query.call.ticket (.answered payload)) _ :=
        ⟨payload, remote, found, rfl, one, right, told, rfl⟩
      dsimp only
      split
      · rename_i aim next
        exact .looks outbox learns next (probe_asks_or_fails ..)
      · rename_i header last
        unfold checkDepth
        dsimp only
        split
        · exact .refused outbox
        · rename_i near
          exact .found outbox learns last (Nat.le_of_not_lt near)
      · exact .refused outbox

/-- A search of this peer's chain, that waits for a block below both heads. -/
structure Seeks (peer : SyncPeer) (localHead : Header) (maxForkAncestry : Nat)
    (s : AncestorSearch) : Prop where
  peer_eq : s.peer = peer
  head_eq : s.localHead = localHead
  limit_eq : s.maxForkAncestry = maxForkAncestry
  wide : s.aim.Wide (height peer localHead)
  receiver : s.query.call.peer = peer.id
  request :
    s.query.call.request = .headers (.single (.number (s.aim.number (height peer localHead))))

end AncestorSearch
end ChainSync
